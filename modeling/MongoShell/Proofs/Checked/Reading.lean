import MongoShell.Proofs.Checked.Descent
import MongoShell.Proofs.Checked.Tokens
import MongoShell.Proofs.Token.LongestMatch

/-! Readings of the tokens of a source. What a reading may come to is measured against the outcome
of another one; and where a token of the source is at hand, it is fetched by its number, and its
text cut out by its span. -/

namespace MongoShell.Checked

variable {α β ρ : Type}

/-! Readings that an outcome bears out -/

/-- A reading gets to where something holds, or it is refused as the outcome is. It does not break
off otherwise. -/
def Yields (result : Checked (α × Nat)) (outcome : Except SyntaxError ρ) (good : α → Nat → Prop) :
    Prop :=
  match result with
  | .ok (a, later) => good a later
  | .error (.refused e) => outcome = .error e
  | .error (.breach _) => False

namespace Reading

variable {x : Reading α} {f : α → Reading β} {pos later : Nat} {a : α}

theorem bind_ok (done : x pos = .ok (a, later)) : (x >>= f) pos = f a later := by
  change (x pos >>= fun result => f result.1 result.2) = f a later
  rw [done]
  rfl

theorem lift_ok {step : Checked α} (done : step = .ok a) :
    (liftM step : Reading α) pos = .ok (a, pos) := by
  rw [done]
  rfl

end Reading

namespace Yields

variable {x : Reading α} {f : α → Reading β} {pos : Nat} {outcome : Except SyntaxError ρ}
  {middle good : α → Nat → Prop} {last : β → Nat → Prop}

theorem bind (first : Yields (x pos) outcome middle)
    (next : ∀ a later, middle a later → Yields (f a later) outcome last) :
    Yields ((x >>= f) pos) outcome last := by
  change Yields (x pos >>= fun result => f result.1 result.2) outcome last
  cases done : x pos with
  | error stop =>
    rw [done] at first
    cases stop <;> exact first
  | ok result =>
    rw [done] at first
    exact next result.1 result.2 first

theorem pure {a : α} (holds : good a pos) : Yields ((Pure.pure a : Reading α) pos) outcome good :=
  holds

theorem imp (yields : Yields (x pos) outcome good) {other : Except SyntaxError β}
    {good' : α → Nat → Prop} (refused : ∀ e, outcome = .error e → other = .error e)
    (further : ∀ a later, good a later → good' a later) : Yields (x pos) other good' := by
  unfold Yields at yields ⊢
  split at yields
  · exact further _ _ yields
  · exact refused _ yields
  · exact yields

theorem mono {good' : α → Nat → Prop} (yields : Yields (x pos) outcome good)
    (further : ∀ a later, good a later → good' a later) : Yields (x pos) outcome good' :=
  yields.imp (fun _ => id) further

end Yields

/-! Tokens of a source -/

/-- The tape of a source with its tokens. -/
def Tape.of (source : List Char) (list : List Token) : Tape := ⟨utf8 source, list.map Token.bare⟩

section Tokens

variable {source : List Char} {list : List Token} {pos : Nat} {t : Token}

@[simp] theorem length_of : (Tape.of source list).tokens.length = list.length := List.length_map _

theorem get_of (here : list[pos]? = some t) :
    get (Tape.of source list).tokens pos = .ok t.bare :=
  get_eq_ok (by rw [Tape.of, List.getElem?_map, here, Option.map_some])

theorem current_eq (here : list[pos]? = some t) :
    (Tape.of source list).current pos = .ok (t.bare, pos) := by
  rw [Tape.current, get_of here]
  rfl

theorem previous_eq (here : list[pos]? = some t) :
    (Tape.of source list).previous (pos + 1) = .ok (t.bare, pos + 1) := by
  rw [Tape.previous, sub_eq_ok (Nat.le_add_left 1 pos), ok_bind, Nat.add_sub_cancel, get_of here]
  rfl

theorem peekKind_eq {ahead : Nat} (there : list[pos + ahead]? = some t) :
    (Tape.of source list).peekKind ahead pos = .ok (t.kind, pos) := by
  unfold Tape.peekKind
  rw [get_of there]
  rfl

theorem advance_eq (here : list[pos]? = some t) (more : t.kind ≠ .endOfInput) :
    (Tape.of source list).advance pos = .ok (t.bare, pos + 1) := by
  rw [Tape.advance, get_of here, ok_bind, if_neg more]
  rfl

theorem check_eq (here : list[pos]? = some t) (kind : TokenKind) :
    (Tape.of source list).check kind pos = .ok (t.kind == kind, pos) :=
  Reading.bind_ok (current_eq here)

theorem expect_eq {kind : TokenKind} (here : list[pos]? = some t) (same : t.kind = kind)
    (inner : kind ≠ .endOfInput) :
    (Tape.of source list).expect kind pos = .ok (t.bare, pos + 1) := by
  rw [Tape.expect, Reading.bind_ok (check_eq here kind), if_pos (beq_iff_eq.mpr same),
    advance_eq here (same ▸ inner)]

theorem length_le_rounds : list.length ≤ pos + (Tape.of source list).tokens.length := by
  rw [length_of]
  exact Nat.le_add_left _ _

variable (scanned : scanFrom .start source = .ok list)

include scanned

/-- Only the last token is the end of the input. -/
theorem succ_lt_length (here : list[pos]? = some t) (more : t.kind ≠ .endOfInput) :
    pos + 1 < list.length := by
  obtain ⟨own, last, rfl, kind, -, -, -⟩ := (laidOut_of_scanFrom scanned).ends
  obtain ⟨inside, same⟩ := List.getElem?_eq_some_iff.mp here
  have differ : pos ≠ own.length := by
    rintro rfl
    rw [List.getElem_append_right (Nat.le_refl _)] at same
    simp only [Nat.sub_self, List.getElem_cons_zero] at same
    exact more (same ▸ kind)
  rw [List.length_append, List.length_singleton] at inside ⊢
  omega

theorem length_of_endOfInput (here : list[pos]? = some t) (last : t.kind = .endOfInput) :
    list.length = pos + 1 := by
  obtain ⟨own, final, rfl, -, -, -, others⟩ := (laidOut_of_scanFrom scanned).ends
  obtain ⟨inside, same⟩ := List.getElem?_eq_some_iff.mp here
  rw [List.length_append, List.length_singleton] at inside ⊢
  have behind : own.length ≤ pos := by
    by_contra front
    rw [List.getElem_append_left (Nat.lt_of_not_le front)] at same
    exact others t (same ▸ List.getElem_mem _) last
  omega

/-- A token's text is what its span cuts out of the source. -/
theorem textUnder_eq (here : list[pos]? = some t) (more : t.kind ≠ .endOfInput) (place : Nat) :
    (Tape.of source list).textUnder t.span place = .ok (t.text, place) := by
  have laid := laidOut_of_scanFrom scanned
  obtain ⟨front, middle, back, same, start, stop, text, -⟩ :=
    laid.lexemes t (List.mem_of_getElem? here) more
  refine Reading.lift_ok ?_
  rw [Tape.of, start, stop, same, slice_append, ← text]

theorem checkWord_eq (here : list[pos]? = some t) (word : String) :
    (Tape.of source list).checkWord word pos =
      .ok (decide (t.kind = .identifier ∧ t.text = word), pos) := by
  rw [Tape.checkWord, Reading.bind_ok (current_eq here)]
  by_cases identifier : t.kind = .identifier
  · have more : t.kind ≠ .endOfInput := by rw [identifier]; decide
    rw [if_pos identifier, Reading.bind_ok (textUnder_eq scanned here more pos)]
    simp only [identifier, true_and]
    rfl
  · rw [if_neg identifier]
    simp only [identifier, false_and]
    rfl

variable {outcome : Except SyntaxError ρ}

theorem unexpected_yields {good : α → Nat → Prop} {expected : Expectation}
    (here : list[pos]? = some t) (refused : outcome = .error (t.unexpected expected)) :
    Yields ((Tape.of source list).unexpected expected pos) outcome good := by
  rw [Tape.unexpected, Reading.bind_ok (current_eq here)]
  rw [Token.unexpected] at refused
  by_cases last : t.kind = .endOfInput
  · rw [if_pos last] at refused ⊢
    exact refused
  · rw [if_neg last] at refused ⊢
    rw [Reading.bind_ok (textUnder_eq scanned here last pos)]
    exact refused

theorem expect_yields {kind : TokenKind} (here : list[pos]? = some t) (inner : kind ≠ .endOfInput)
    (refused : t.kind ≠ kind → outcome = .error (t.unexpected (.token kind))) :
    Yields ((Tape.of source list).expect kind pos) outcome fun got later =>
      got = t.bare ∧ later = pos + 1 ∧ t.kind = kind := by
  by_cases same : t.kind = kind
  · rw [expect_eq here same inner]
    exact ⟨rfl, rfl, same⟩
  · rw [Tape.expect, Reading.bind_ok (check_eq here kind), if_neg (mt beq_iff_eq.mp same)]
    exact unexpected_yields scanned here (refused same)

theorem exists_lexeme (here : list[pos]? = some t) (more : t.kind ≠ .endOfInput) :
    ∃ text, t.text = String.ofList text ∧ Lexeme (.token t.kind) text := by
  have laid := laidOut_of_scanFrom scanned
  obtain ⟨_, text, _, -, -, -, own, lexeme⟩ := laid.lexemes t (List.mem_of_getElem? here) more
  exact ⟨text, own, lexeme⟩

end Tokens

end MongoShell.Checked
