import MongoShell.Proofs.Token.Further
import MongoShell.Proofs.Token.Lexeme

/-! A plus sign put in front of a token. A piece only goes on with a plus sign where it has to go
on, so what stands in front of the sign is cut off as before; and what stands behind it is cut into
the same tokens in the same lines, since the sign takes up one column. -/

namespace MongoShell

/-- The second text is the first up to a point, where it goes on with a plus sign and the first goes
on in its line. -/
inductive UpToPlus : List Char → List Char → Prop
  | plus {c : Char} (inLine : c ≠ '\n') (text other : List Char) :
      UpToPlus (c :: text) ('+' :: other)
  | same (c : Char) {text other : List Char} (behind : UpToPlus text other) :
      UpToPlus (c :: text) (c :: other)

namespace UpToPlus

variable {text other : List Char}

theorem append (upTo : UpToPlus text other) (piece : List Char) :
    UpToPlus (piece ++ text) (piece ++ other) := by
  induction piece with
  | nil => exact upTo
  | cons c piece ih => exact .same c ih

theorem keepsLine (upTo : UpToPlus text other) : KeepsLine text other := by
  cases upTo with
  | plus inLine text other => exact fun first => absurd (first _ rfl) inLine
  | same c behind => exact fun first => first

theorem head (upTo : UpToPlus text other) {c : Char} (first : c ∈ other.head?) :
    c = '+' ∨ c ∈ text.head? := by
  cases upTo with
  | plus inLine text other => exact .inl (Option.some.inj first).symm
  | same c behind => exact .inr first

theorem span (upTo : UpToPlus text other) {p : Char → Bool} (sign : p '+' = false)
    {piece : List Char} (found : Cut.span p (piece ++ text) = ⟨piece, text⟩) :
    Cut.span p (piece ++ other) = ⟨piece, other⟩ := by
  apply Cut.span_stop found
  intro fails c member
  rcases upTo.head member with rfl | same
  · exact sign
  · exact fails c same

theorem opensFraction (upTo : UpToPlus text other) (opens : OpensFraction other) :
    OpensFraction text := by
  obtain ⟨d, rest, rfl, digit⟩ := opens
  cases upTo with
  | same _ behind =>
    cases behind with
    | plus => cases digit
    | same => exact ⟨d, _, rfl, digit⟩

theorem cutFraction (upTo : UpToPlus text other) {piece : List Char}
    (found : MongoShell.cutFraction (piece ++ text) = ⟨piece, text⟩) :
    MongoShell.cutFraction (piece ++ other) = ⟨piece, other⟩ := by
  rcases cutFraction_eq_iff.mp found with ⟨rfl, closed⟩ | ⟨d, digits, rfl, digit, cut⟩
  · exact cutFraction_eq_iff.mpr (.inl ⟨rfl, fun opens => closed (upTo.opensFraction opens)⟩)
  · exact cutFraction_eq_iff.mpr (.inr ⟨d, digits, rfl, digit, upTo.span rfl cut⟩)

/-- An exponent that has its digits does not go on with a sign. -/
theorem cutExponent (upTo : UpToPlus text other) {piece : List Char}
    (ends : piece = [] ∨ endsInDigit piece = true)
    (found : MongoShell.cutExponent (piece ++ text) = ⟨piece, text⟩) :
    MongoShell.cutExponent (piece ++ other) = ⟨piece, other⟩ := by
  cases piece with
  | nil =>
    refine cutExponent_other fun c member => ?_
    rcases upTo.head member with rfl | first
    · simp [ExponentMark]
    · intro mark
      obtain ⟨rest, rfl⟩ := List.head?_eq_some_iff.mp first
      rw [List.nil_append, cutExponent_mark mark] at found
      exact Cut.cons_ne_nil found
  | cons c tail =>
    have mark : ExponentMark c := by
      by_contra noMark
      rw [cutExponent_other (by simpa using noMark)] at found
      cases found
    rw [List.cons_append, cutExponent_mark mark, Cut.cons_eq_iff] at found ⊢
    obtain ⟨sign, digits, rfl, early, late⟩ :=
      Cut.exists_parts whole_cutSign (Cut.whole_span _) found.2
    have signed : Sign sign := by
      have cut := sign_cutSign (sign ++ (digits ++ text))
      rwa [early] at cut
    have taken : (Cut.span Char.isDigit (digits ++ text)).text = digits := congrArg Cut.text late
    have closes := ends.resolve_left (List.cons_ne_nil _ _)
    have some : digits ≠ [] := @exponent_ne_nil [] _ _ _ mark signed closes
    have all : IsDigits digits :=
      ⟨some, fun d member => List.mem_takeWhile_imp (taken.symm ▸ member)⟩
    exact ⟨rfl, Cut.andThen_eq (signed.cut all other) (upTo.span rfl late)⟩

theorem cutNumber (upTo : UpToPlus text other) {piece : List Char}
    (ends : endsInDigit piece = true)
    (found : MongoShell.cutNumber (piece ++ text) = ⟨piece, text⟩) :
    MongoShell.cutNumber (piece ++ other) = ⟨piece, other⟩ := by
  have whole (text : List Char) : (cutMantissa text).whole = text := by
    rw [cutMantissa, Cut.whole_andThen _ _ whole_cutFraction, Cut.whole_span]
  obtain ⟨mantissa, scale, rfl, front, behind⟩ :=
    Cut.exists_parts whole whole_cutExponent found
  obtain ⟨digits, fraction, rfl, first, second⟩ :=
    Cut.exists_parts (Cut.whole_span _) whole_cutFraction front
  have closes : scale = [] ∨ endsInDigit scale = true := by
    cases scale with
    | nil => exact .inl rfl
    | cons c scale =>
      rw [endsInDigit, List.getLast?_append_of_ne_nil _ (List.cons_ne_nil c scale)] at ends
      exact .inr ends
  have again := upTo.append scale
  have start := Cut.andThen_eq ((again.append fraction).span rfl first) (again.cutFraction second)
  exact @Cut.andThen_eq cutMantissa _ _ _ _ start (upTo.cutExponent closes behind)

theorem endsAlike (upTo : UpToPlus text other) : EndsAlike text other where
  word cut := upTo.span rfl cut
  flags cut := upTo.span rfl cut
  number ends cut := upTo.cutNumber ends cut

end UpToPlus

/-- A stretch in front of a plus sign is cut into the same tokens as in front of what is there
without it. -/
theorem Stretch.upToPlus {place : Position} {text rest other : List Char} {tokens : List Token}
    (stretch : Stretch place text rest tokens) (upTo : UpToPlus rest other) :
    Stretch place text other tokens :=
  stretch.before (fun piece => (upTo.append piece).endsAlike) upTo.keepsLine

/-! Behind the sign -/

/-- The same token in the same line. -/
def Token.Beside (t u : Token) : Prop := u.word = t.word ∧ u.span.line = t.span.line

theorem Token.Beside.refl (t : Token) : t.Beside t := ⟨rfl, rfl⟩

theorem Stretch.beside {place other : Position} {text rest : List Char} {tokens : List Token}
    (stretch : Stretch place text rest tokens) (line : other.line = place.line) :
    ∃ moved, Stretch other text rest moved ∧ List.Forall₂ Token.Beside tokens moved := by
  have next {place other : Position} (line : other.line = place.line) (piece : List Char) :
      (other.after piece).line = (place.after piece).line := by
    rw [Position.line_after, line, Position.line_after]
  induction stretch generalizing other with
  | nil => exact ⟨[], .nil, .nil⟩
  | trivia starts _ ih =>
    obtain ⟨moved, stretch, beside⟩ := ih (next line _)
    exact ⟨moved, .trivia starts stretch, beside⟩
  | token starts _ ih =>
    obtain ⟨moved, stretch, beside⟩ := ih (next line _)
    exact ⟨_, .token starts stretch, .cons ⟨rfl, line⟩ beside⟩

theorem scanFrom_beside {place other : Position} {text : List Char} {tokens : List Token}
    (done : scanFrom place text = .ok tokens) (line : other.line = place.line) :
    ∃ moved, scanFrom other text = .ok moved ∧ List.Forall₂ Token.Beside tokens moved := by
  obtain ⟨own, rfl, stretch⟩ := stretch_of_scanFrom done
  obtain ⟨moved, again, beside⟩ := stretch.beside line
  refine ⟨_, again.scanFrom_eq, List.rel_append beside (.cons ⟨rfl, ?_⟩ .nil)⟩
  change (other.after text).line = (place.after text).line
  rw [Position.line_after, line, Position.line_after]

/-- From two places in one line a text is cut into the same tokens in the same lines, or it is not
cut. -/
theorem scanFrom_beside_rel {place other : Position} (text : List Char)
    (line : other.line = place.line) :
    Option.Rel (List.Forall₂ Token.Beside) (scanFrom place text).toOption
      (scanFrom other text).toOption := by
  cases done : scanFrom place text with
  | ok tokens =>
    obtain ⟨moved, again, beside⟩ := scanFrom_beside done line
    rw [again]
    exact .some beside
  | error e =>
    cases again : scanFrom other text with
    | ok moved =>
      obtain ⟨tokens, back, -⟩ := scanFrom_beside again line.symm
      rw [done] at back
      cases back
    | error e => exact .none

end MongoShell
