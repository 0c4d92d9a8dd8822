import Mathlib.Data.List.TakeWhile
import Mathlib.Tactic.Common
import MongoShell.Proofs.Number.Numeral
import MongoShell.Token.Scan

/-! What stands behind a piece. Every piece is the longest that its class allows, so a piece is cut
off in the same way when the text behind it ends sooner, or gives way to a slash or a blank: no
token goes on with one of these. Only a comment that runs to the end of its line needs the line feed
where it was. -/

namespace MongoShell

/-- The characters that part tokens: no token goes on with one of them. -/
def partings : List Char := ['/', ' ', '\t', '\r', '\n']

theorem fails_of_parting {p : Char → Bool} (none : partings.any p = false) {c : Char}
    (parting : c ∈ partings) : p c = false := by
  simpa using List.any_eq_false.mp none c parting

/-- The second text is the first as far as it goes: it ends, or goes on with a character that parts
tokens. -/
inductive AsFar : List Char → List Char → Prop
  | ends {text : List Char} : AsFar text []
  | parts {text other : List Char} {c : Char} (parting : c ∈ partings) : AsFar text (c :: other)
  | same {text other : List Char} (c : Char) (behind : AsFar text other) :
      AsFar (c :: text) (c :: other)

/-- Where only a line feed can come first in the one text, only a line feed comes first in the
other. -/
def KeepsLine (text other : List Char) : Prop :=
  (∀ c ∈ text.head?, c = '\n') → ∀ c ∈ other.head?, c = '\n'

namespace AsFar

theorem append {text other : List Char} (far : AsFar text other) (piece : List Char) :
    AsFar (piece ++ text) (piece ++ other) := by
  induction piece with
  | nil => exact far
  | cons c piece ih => exact .same c ih

/-- A line feed, or the end, in place of whatever there is. -/
theorem of_line {text other : List Char} (feed : ∀ c ∈ other.head?, c = '\n') :
    AsFar text other := by
  cases other with
  | nil => exact .ends
  | cons c other =>
    obtain rfl := feed c rfl
    exact .parts (by decide)

theorem head {text other : List Char} (far : AsFar text other) {c : Char}
    (first : c ∈ other.head?) : c ∈ partings ∨ c ∈ text.head? := by
  cases far with
  | ends => cases first
  | parts parting =>
    cases first
    exact .inl parting
  | same c behind => exact .inr first

end AsFar

namespace KeepsLine

theorem append {text other : List Char} (line : KeepsLine text other) (piece : List Char) :
    KeepsLine (piece ++ text) (piece ++ other) := by
  cases piece with
  | nil => exact line
  | cons c piece => exact fun first => first

theorem of_line {text other : List Char} (feed : ∀ c ∈ other.head?, c = '\n') :
    KeepsLine text other :=
  fun _ => feed

end KeepsLine

namespace Cut

/-- A way to cut pieces off that does not depend on what is behind the piece, as far as that is the
same. -/
def Local (f : List Char → Cut) : Prop :=
  ∀ ⦃piece text other : List Char⦄, AsFar text other → f (piece ++ text) = ⟨piece, text⟩ →
    f (piece ++ other) = ⟨piece, other⟩

/-- Characters that pass a test, in front of one that does not. -/
theorem span_stop {p : Char → Bool} {piece text other : List Char}
    (found : span p (piece ++ text) = ⟨piece, text⟩)
    (stop : (∀ c ∈ text.head?, p c = false) → ∀ c ∈ other.head?, p c = false) :
    span p (piece ++ other) = ⟨piece, other⟩ := by
  have taken := congrArg Cut.text found
  have dropped := congrArg Cut.rest found
  simp only [span] at taken dropped
  have all : ∀ c ∈ piece, p c = true := fun c member =>
    List.mem_takeWhile_imp (taken ▸ member)
  have fails : ∀ c ∈ text.head?, p c = false := by
    intro c member
    have first := List.head?_dropWhile_not p (piece ++ text)
    rw [dropped, member] at first
    simpa using first
  rw [span, takeWhile_stop all (stop fails), dropWhile_stop all (stop fails)]

theorem local_span {p : Char → Bool} (none : partings.any p = false) : Local (span p) := by
  intro piece text other far found
  apply span_stop found
  intro fails c member
  rcases far.head member with parting | same
  · exact fails_of_parting none parting
  · exact fails c same

/-- A piece that is cut off in two parts. -/
theorem exists_parts {f g : List Char → Cut} (keeps : ∀ text, (f text).whole = text)
    (keepsMore : ∀ text, (g text).whole = text) {piece text : List Char}
    (found : (f (piece ++ text)).andThen g = ⟨piece, text⟩) :
    ∃ first second, piece = first ++ second ∧
      f (first ++ (second ++ text)) = ⟨first, second ++ text⟩ ∧
      g (second ++ text) = ⟨second, text⟩ := by
  simp only [Cut.andThen, Cut.mk.injEq] at found
  obtain ⟨split, behind⟩ := found
  have whole := keeps (piece ++ text)
  generalize early : f (piece ++ text) = cut at split behind whole
  obtain ⟨a, middle⟩ := cut
  have inner := keepsMore middle
  generalize late : g middle = cut at split behind inner
  obtain ⟨b, last⟩ := cut
  simp only at split behind
  subst split behind
  simp only [Cut.whole] at inner
  subst inner
  rw [List.append_assoc] at early
  exact ⟨a, b, rfl, early, late⟩

/-- Two parts that are cut off one behind the other. -/
theorem andThen_eq {f g : List Char → Cut} {first second text : List Char}
    (early : f (first ++ (second ++ text)) = ⟨first, second ++ text⟩)
    (late : g (second ++ text) = ⟨second, text⟩) :
    (f (first ++ second ++ text)).andThen g = ⟨first ++ second, text⟩ := by
  simp only [Cut.andThen, List.append_assoc, early, late]

theorem Local.andThen {f g : List Char → Cut} (first : Local f) (second : Local g)
    (keeps : ∀ text, (f text).whole = text) (keepsMore : ∀ text, (g text).whole = text) :
    Local fun text => (f text).andThen g := by
  intro piece text other far found
  obtain ⟨a, b, rfl, early, late⟩ := exists_parts keeps keepsMore found
  exact andThen_eq (first (far.append b) early) (second far late)

theorem cons_eq_iff {c d : Char} {cut : Cut} {piece rest : List Char} :
    cut.cons c = ⟨d :: piece, rest⟩ ↔ c = d ∧ cut = ⟨piece, rest⟩ := by
  obtain ⟨text, behind⟩ := cut
  simp only [cons, Cut.mk.injEq, List.cons.injEq, and_assoc]

theorem cons_ne_nil {c : Char} {cut : Cut} {rest : List Char} : cut.cons c ≠ ⟨[], rest⟩ := by
  simp [cons]

end Cut

theorem cutFraction_cons_cons (c d : Char) (text : List Char) :
    cutFraction (c :: d :: text) =
      if c = '.' ∧ d.isDigit = true then (Cut.span Char.isDigit (d :: text)).cons '.'
      else ⟨[], c :: d :: text⟩ := by
  unfold cutFraction
  split
  · rename_i same
    cases same
    simp
  · rename_i other
    have noPoint : c ≠ '.' := by
      rintro rfl
      exact other d text rfl
    simp [noPoint]

theorem cutFraction_other {c : Char} (noPoint : c ≠ '.') (text : List Char) :
    cutFraction (c :: text) = ⟨[], c :: text⟩ := by
  cases text with
  | nil => simp [cutFraction]
  | cons d text => rw [cutFraction_cons_cons, if_neg fun point => noPoint point.1]

theorem cutFraction_single (c : Char) : cutFraction [c] = ⟨[], [c]⟩ := by
  simp [cutFraction]

/-- A text starts with a point and a digit behind it. -/
def OpensFraction (text : List Char) : Prop :=
  ∃ d rest, text = '.' :: d :: rest ∧ d.isDigit = true

theorem cutFraction_eq_iff {piece text : List Char} :
    cutFraction (piece ++ text) = ⟨piece, text⟩ ↔ piece = [] ∧ ¬OpensFraction text ∨
      ∃ d digits, piece = '.' :: d :: digits ∧ d.isDigit = true ∧
        Cut.span Char.isDigit (d :: digits ++ text) = ⟨d :: digits, text⟩ := by
  match piece with
  | [] =>
    match text with
    | [] => simp [cutFraction, OpensFraction]
    | [c] => simp [cutFraction_single, OpensFraction]
    | c :: d :: text =>
      rw [List.nil_append, cutFraction_cons_cons]
      by_cases opens : c = '.' ∧ d.isDigit = true
      · simp [opens, OpensFraction, Cut.cons]
      · simp [OpensFraction, opens]
  | [c] =>
    cases text with
    | nil => simp [cutFraction_single]
    | cons d text =>
      rw [List.singleton_append, cutFraction_cons_cons]
      by_cases opens : c = '.' ∧ d.isDigit = true
      · simp [opens, Cut.cons, Cut.span]
      · simp [opens]
  | c :: d :: piece =>
    rw [List.cons_append, List.cons_append, cutFraction_cons_cons]
    by_cases opens : c = '.' ∧ d.isDigit = true
    · simp [opens, Cut.cons_eq_iff]
    · rw [if_neg opens]
      grind

theorem AsFar.opensFraction {text other : List Char} (far : AsFar text other)
    (opens : OpensFraction other) : OpensFraction text := by
  obtain ⟨d, rest, rfl, digit⟩ := opens
  cases far with
  | parts parting => exact absurd parting (by decide)
  | same _ behind =>
    cases behind with
    | parts parting =>
      have noDigit : d.isDigit = false := fails_of_parting (by decide) parting
      rw [digit] at noDigit
      cases noDigit
    | same => exact ⟨d, _, rfl, digit⟩

theorem local_cutFraction : Cut.Local cutFraction := by
  intro piece text other far found
  rcases cutFraction_eq_iff.mp found with ⟨rfl, closed⟩ | ⟨d, digits, rfl, digit, cut⟩
  · exact cutFraction_eq_iff.mpr (.inl ⟨rfl, fun opens => closed (far.opensFraction opens)⟩)
  · exact cutFraction_eq_iff.mpr (.inr ⟨d, digits, rfl, digit, Cut.local_span (by decide) far cut⟩)

theorem local_cutSign : Cut.Local cutSign := by
  intro piece text other far found
  cases piece with
  | nil =>
    rw [List.nil_append] at found ⊢
    cases far with
    | ends => rfl
    | @parts _ _ c parting =>
      have noSign : (c == '+' || c == '-') = false :=
        fails_of_parting (p := fun c => c == '+' || c == '-') (by decide) parting
      simp [cutSign, noSign]
    | same c behind =>
      simp only [cutSign] at found ⊢
      split at found
      · simp at found
      · rename_i other
        rw [if_neg other]
  | cons c piece =>
    simp only [List.cons_append, cutSign] at found ⊢
    split at found
    · rename_i sign
      simp only [Cut.mk.injEq, List.cons.injEq, true_and] at found
      obtain ⟨rfl, -⟩ := found
      rw [if_pos sign, List.nil_append]
    · simp at found

theorem local_cutExponent : Cut.Local cutExponent := by
  have digits : Cut.Local fun text => (cutSign text).andThen (Cut.span Char.isDigit) :=
    local_cutSign.andThen (Cut.local_span (by decide)) whole_cutSign (Cut.whole_span _)
  intro piece text other far found
  cases piece with
  | nil =>
    rw [List.nil_append] at found ⊢
    cases far with
    | ends => rfl
    | @parts _ _ c parting =>
      have noLetter : (c == 'e' || c == 'E') = false :=
        fails_of_parting (p := fun c => c == 'e' || c == 'E') (by decide) parting
      simp [cutExponent, noLetter]
    | same c behind =>
      simp only [cutExponent] at found ⊢
      split at found
      · exact absurd found Cut.cons_ne_nil
      · rename_i other
        rw [if_neg other]
  | cons c piece =>
    simp only [List.cons_append, cutExponent] at found ⊢
    split at found
    · rename_i letter
      obtain ⟨-, inner⟩ := Cut.cons_eq_iff.mp found
      rw [if_pos letter, Cut.cons_eq_iff]
      exact ⟨rfl, digits far inner⟩
    · simp at found

theorem local_cutNumber : Cut.Local cutNumber := by
  have whole (text : List Char) :
      ((Cut.span Char.isDigit text).andThen cutFraction).whole = text := by
    rw [Cut.whole_andThen _ _ whole_cutFraction, Cut.whole_span]
  have front : Cut.Local fun text => (Cut.span Char.isDigit text).andThen cutFraction :=
    (Cut.local_span (by decide)).andThen local_cutFraction (Cut.whole_span _) whole_cutFraction
  exact front.andThen local_cutExponent whole whole_cutExponent

/-! Pieces that have to be closed: what is behind them does not matter at all -/

theorem Cut.map_cons_eq_some {c d : Char} {found : Option Cut} {piece rest : List Char} :
    found.map (Cut.cons c) = some ⟨d :: piece, rest⟩ ↔ c = d ∧ found = some ⟨piece, rest⟩ := by
  cases found with
  | none => simp
  | some cut => simp [Cut.cons_eq_iff]

theorem Cut.map_cons_ne_nil {c : Char} {found : Option Cut} {rest : List Char} :
    found.map (Cut.cons c) ≠ some ⟨[], rest⟩ := by
  cases found with
  | none => simp
  | some cut => simp [Cut.cons_ne_nil]

theorem cutString_ne_nil {quote : Char} {escaped : Bool} {text rest : List Char} :
    cutString quote escaped text ≠ some ⟨[], rest⟩ := by
  cases text with
  | nil => simp [cutString]
  | cons c text =>
    unfold cutString
    split
    · exact Cut.map_cons_ne_nil
    split
    · simp
    split
    · simp
    · exact Cut.map_cons_ne_nil

theorem local_cutString {quote : Char} {escaped : Bool} {piece text : List Char}
    (found : cutString quote escaped (piece ++ text) = some ⟨piece, text⟩) (other : List Char) :
    cutString quote escaped (piece ++ other) = some ⟨piece, other⟩ := by
  induction piece generalizing escaped with
  | nil => exact absurd found cutString_ne_nil
  | cons c piece ih =>
    simp only [List.cons_append, cutString] at found ⊢
    split at found
    · rename_i isEscaped
      rw [if_pos isEscaped, Cut.map_cons_eq_some]
      exact ⟨rfl, ih (Cut.map_cons_eq_some.mp found).2⟩
    rename_i plain
    rw [if_neg plain]
    split at found
    · rename_i closes
      obtain rfl : piece = [] := by simpa using found
      rw [if_pos closes, List.nil_append]
    rename_i opened
    rw [if_neg opened]
    split at found
    · cases found
    rename_i inLine
    rw [if_neg inLine, Cut.map_cons_eq_some]
    exact ⟨rfl, ih (Cut.map_cons_eq_some.mp found).2⟩

theorem cutRegex_ne_nil {escaped inClass : Bool} {text rest : List Char} :
    cutRegex escaped inClass text ≠ some ⟨[], rest⟩ := by
  cases text with
  | nil => simp [cutRegex]
  | cons c text =>
    unfold cutRegex
    split
    · simp
    split
    · exact Cut.map_cons_ne_nil
    split
    · simp
    · exact Cut.map_cons_ne_nil

theorem local_cutRegex {escaped inClass : Bool} {piece text : List Char}
    (found : cutRegex escaped inClass (piece ++ text) = some ⟨piece, text⟩) (other : List Char) :
    cutRegex escaped inClass (piece ++ other) = some ⟨piece, other⟩ := by
  induction piece generalizing escaped inClass with
  | nil => exact absurd found cutRegex_ne_nil
  | cons c piece ih =>
    simp only [List.cons_append, cutRegex] at found ⊢
    split at found
    · cases found
    rename_i inLine
    rw [if_neg inLine]
    split at found
    · rename_i isEscaped
      rw [if_pos isEscaped, Cut.map_cons_eq_some]
      exact ⟨rfl, ih (Cut.map_cons_eq_some.mp found).2⟩
    rename_i plain
    rw [if_neg plain]
    split at found
    · rename_i closes
      obtain rfl : piece = [] := by simpa using found
      rw [if_pos closes, List.nil_append]
    rename_i opened
    rw [if_neg opened, Cut.map_cons_eq_some]
    exact ⟨rfl, ih (Cut.map_cons_eq_some.mp found).2⟩

theorem cutComment_ne_nil {text rest : List Char} : cutComment text ≠ some ⟨[], rest⟩ := by
  cases text with
  | nil => simp [cutComment]
  | cons c text =>
    unfold cutComment
    split
    · simp
    · exact Cut.map_cons_ne_nil

theorem local_cutComment {piece text : List Char}
    (found : cutComment (piece ++ text) = some ⟨piece, text⟩) (other : List Char) :
    cutComment (piece ++ other) = some ⟨piece, other⟩ := by
  induction piece with
  | nil => exact absurd found cutComment_ne_nil
  | cons c piece ih =>
    simp only [List.cons_append, cutComment] at found ⊢
    split at found
    · simp only [Option.some.injEq, Cut.mk.injEq, List.cons.injEq] at found
      obtain ⟨⟨rfl, rfl⟩, -⟩ := found
      rfl
    · rename_i opened
      have inner := (Cut.map_cons_eq_some.mp found).2
      -- whether the comment closes here is seen from the next character, which the piece has
      have stillOpened : ¬((c = '*' && (piece ++ other).head? == some '/') = true) := by
        cases piece with
        | nil => exact absurd inner cutComment_ne_nil
        | cons d piece => simpa using opened
      rw [if_neg stillOpened, Cut.map_cons_eq_some]
      exact ⟨rfl, ih inner⟩

/-! The piece at the front of a text -/

/-- The pieces that only end where the text behind them cannot go on with them: what ends in front
of the one text ends in front of the other. -/
structure EndsAlike (text other : List Char) : Prop where
  word {piece : List Char} : Cut.span isIdentifierPart (piece ++ text) = ⟨piece, text⟩ →
    Cut.span isIdentifierPart (piece ++ other) = ⟨piece, other⟩
  flags {piece : List Char} : Cut.span Char.isAlpha (piece ++ text) = ⟨piece, text⟩ →
    Cut.span Char.isAlpha (piece ++ other) = ⟨piece, other⟩
  number {piece : List Char} : endsInDigit piece = true →
    cutNumber (piece ++ text) = ⟨piece, text⟩ →
    cutNumber (piece ++ other) = ⟨piece, other⟩

theorem AsFar.endsAlike {text other : List Char} (far : AsFar text other) :
    EndsAlike text other where
  word cut := Cut.local_span (by decide) far cut
  flags cut := Cut.local_span (by decide) far cut
  number _ cut := local_cutNumber far cut

/-- A regular expression with its flags. -/
theorem local_regex {piece text other : List Char} (alike : EndsAlike text other) {cut : Cut}
    (found : cutRegex false false (piece ++ text) = some cut)
    (flagged : cut.andThen (Cut.span Char.isAlpha) = ⟨piece, text⟩) :
    ∃ short, cutRegex false false (piece ++ other) = some short ∧
      short.andThen (Cut.span Char.isAlpha) = ⟨piece, other⟩ := by
  obtain ⟨body, behind⟩ := cut
  have whole := whole_cutRegex found
  have inner := Cut.whole_span Char.isAlpha behind
  simp only [Cut.andThen, Cut.mk.injEq] at flagged
  generalize cutFlags : Cut.span Char.isAlpha behind = more at flagged inner
  obtain ⟨flags, last⟩ := more
  simp only at flagged
  obtain ⟨rfl, rfl⟩ := flagged
  simp only [Cut.whole] at inner
  subst inner
  rw [List.append_assoc] at found
  refine ⟨⟨body, flags ++ other⟩, ?_, ?_⟩
  · rw [List.append_assoc]
    exact local_cutRegex found (flags ++ other)
  · simp only [Cut.andThen, alike.flags cutFlags]

theorem slashFront_regex {c : Char} {text : List Char} (noLine : c ≠ '/') (noBlock : c ≠ '*') :
    slashFront (c :: text) =
      match cutRegex false false (c :: text) with
      | some cut => .ok ⟨.token .regex, (cut.andThen (Cut.span Char.isAlpha)).cons '/'⟩
      | none => .error .unclosedRegex := by
  unfold slashFront
  split
  · rename_i same
    cases same
    exact absurd rfl noLine
  · rename_i same
    cases same
    exact absurd rfl noBlock
  · rfl

/-- A slash alone is no piece. -/
theorem slashFront_ne_single {text rest : List Char} {piece : Piece} :
    slashFront text ≠ .ok ⟨piece, ⟨['/'], rest⟩⟩ := by
  intro read
  unfold slashFront at read
  split at read
  · simp only [Except.ok.injEq, Front.mk.injEq, Cut.cons_eq_iff] at read
    exact Cut.cons_ne_nil read.2.2
  · split at read
    · simp only [Except.ok.injEq, Front.mk.injEq, Cut.cons_eq_iff] at read
      exact Cut.cons_ne_nil read.2.2
    · cases read
  · split at read
    · rename_i cut found
      obtain ⟨body, behind⟩ := cut
      simp only [Except.ok.injEq, Front.mk.injEq, Cut.cons_eq_iff, Cut.andThen, Cut.mk.injEq,
        List.append_eq_nil_iff] at read
      obtain ⟨-, -, ⟨rfl, -⟩, -⟩ := read
      exact cutRegex_ne_nil found
    · cases read

/-- A line feed ends the comment at the front of a line, or the end of the text does. -/
theorem local_lineComment {piece text other : List Char} (line : KeepsLine text other)
    (found : Cut.span (· != '\n') (piece ++ text) = ⟨piece, text⟩) :
    Cut.span (· != '\n') (piece ++ other) = ⟨piece, other⟩ := by
  apply Cut.span_stop found
  intro fails c member
  have feed : ∀ d ∈ text.head?, d = '\n' := fun d first => by simpa using fails d first
  simp [line feed c member]

theorem slashFront_instead {text rest other : List Char} {piece : Piece}
    (alike : EndsAlike rest other)
    (line : piece = .trivia → KeepsLine rest other)
    (read : slashFront (text ++ rest) = .ok ⟨piece, ⟨'/' :: text, rest⟩⟩) :
    slashFront (text ++ other) = .ok ⟨piece, ⟨'/' :: text, other⟩⟩ := by
  cases text with
  | nil => exact absurd read slashFront_ne_single
  | cons c text =>
    simp only [List.cons_append] at read ⊢
    by_cases slash : c = '/'
    · subst slash
      simp only [slashFront, Except.ok.injEq, Front.mk.injEq, Cut.cons_eq_iff, true_and] at read ⊢
      exact ⟨read.1, local_lineComment (line read.1.symm) read.2⟩
    by_cases block : c = '*'
    · subst block
      simp only [slashFront] at read ⊢
      split at read
      · rename_i found
        simp only [Except.ok.injEq, Front.mk.injEq, Cut.cons_eq_iff, true_and] at read
        obtain ⟨rfl, rfl⟩ := read
        rw [local_cutComment found other]
        rfl
      · cases read
    · rw [slashFront_regex slash block] at read ⊢
      split at read
      · rename_i cut found
        simp only [Except.ok.injEq, Front.mk.injEq, Cut.cons_eq_iff, true_and] at read
        obtain ⟨rfl, flagged⟩ := read
        rw [← List.cons_append] at found
        obtain ⟨short, shortFound, same⟩ := local_regex alike found flagged
        rw [List.cons_append] at shortFound
        rw [shortFound]
        simp only [same]
        rfl
      · cases read

/-- A piece is cut off in the same way whatever stands behind it, as long as pieces end there alike.
-/
theorem front_instead {c : Char} {text rest other : List Char} {piece : Piece}
    (alike : EndsAlike rest other) (line : piece = .trivia → KeepsLine rest other)
    (read : front c (text ++ rest) = .ok ⟨piece, ⟨c :: text, rest⟩⟩) :
    front c (text ++ other) = .ok ⟨piece, ⟨c :: text, other⟩⟩ := by
  unfold front at read ⊢
  split at read
  · rename_i word
    simp only [Except.ok.injEq, Front.mk.injEq, Cut.cons_eq_iff, true_and] at read
    obtain ⟨rfl, cut⟩ := read
    rw [if_pos word, alike.word cut]
    rfl
  rename_i noWord
  rw [if_neg noWord]
  split at read
  · rename_i digit
    simp only at read ⊢
    rw [if_pos digit]
    split at read
    · rename_i ends
      simp only [Except.ok.injEq, Front.mk.injEq] at read
      obtain ⟨rfl, cut⟩ := read
      rw [cut] at ends
      rw [← List.cons_append] at cut
      have short := alike.number ends cut
      rw [List.cons_append] at short
      rw [short, if_pos ends]
    · cases read
  rename_i noDigit
  rw [if_neg noDigit]
  split at read
  · rename_i quote
    rw [if_pos quote]
    split at read
    · rename_i cut found
      simp only [Except.ok.injEq, Front.mk.injEq, Cut.cons_eq_iff, true_and] at read
      obtain ⟨rfl, rfl⟩ := read
      rw [local_cutString found other]
      rfl
    · cases read
  rename_i noQuote
  rw [if_neg noQuote]
  split at read
  · rename_i slash
    subst slash
    rw [if_pos rfl]
    exact slashFront_instead alike line read
  rename_i noSlash
  rw [if_neg noSlash]
  split at read
  · rename_i blank
    rw [if_pos blank]
    simp only [Except.ok.injEq, Front.mk.injEq, Cut.mk.injEq, List.cons.injEq, true_and] at read
    obtain ⟨rfl, rfl, -⟩ := read
    rfl
  rename_i noBlank
  rw [if_neg noBlank]
  split at read
  · rename_i kind mark
    simp only [Except.ok.injEq, Front.mk.injEq, Cut.mk.injEq, List.cons.injEq, true_and] at read
    obtain ⟨rfl, rfl, -⟩ := read
    rfl
  · cases read

end MongoShell
