import MongoShell.Proofs.Number.Numeral
import MongoShell.Token.Scan

/-! Texts that the scanner cuts into tokens of a known sort, whatever stands around them. A mark and
a string end by themselves; a word and a numeral end where something follows that cannot belong to
them. -/

namespace MongoShell

/-- A text in front of another is cut into tokens of which something holds, and the scanner goes on
with the other text. -/
def Scans (text rest : List Char) (holds : List Token → Prop) : Prop :=
  ∀ place, ∃ tokens, holds tokens ∧
    scanFrom place (text ++ rest) = (scanFrom (place.after text) rest).map (tokens ++ ·)

/-- One token of a kind, with its text. -/
def IsToken (kind : TokenKind) (text : List Char) (tokens : List Token) : Prop :=
  ∃ t, tokens = [t] ∧ t.kind = kind ∧ t.text = String.ofList text

/-- A list of tokens in two parts of which something holds each. -/
def Joined (p q : List Token → Prop) (tokens : List Token) : Prop :=
  ∃ first second, p first ∧ q second ∧ tokens = first ++ second

namespace Scans

theorem append {first second rest : List Char} {p q : List Token → Prop}
    (before : Scans first (second ++ rest) p) (behind : Scans second rest q) :
    Scans (first ++ second) rest (Joined p q) := by
  intro place
  obtain ⟨tokens, left, cut⟩ := before place
  obtain ⟨more, right, others⟩ := behind (place.after first)
  refine ⟨tokens ++ more, ⟨tokens, more, left, right, rfl⟩, ?_⟩
  rw [List.append_assoc, cut, others, Position.after_append]
  cases scanFrom ((place.after first).after second) rest with
  | error e => rfl
  | ok last => simp [Except.map]

theorem mono {text rest : List Char} {p q : List Token → Prop} (scans : Scans text rest p)
    (weaker : ∀ tokens, p tokens → q tokens) : Scans text rest q := by
  intro place
  obtain ⟨tokens, holds, cut⟩ := scans place
  exact ⟨tokens, weaker tokens holds, cut⟩

/-- A token at the front of a text. -/
theorem ofFront {c : Char} {text rest : List Char} {kind : TokenKind}
    (read : front c (text ++ rest) = .ok ⟨.token kind, ⟨c :: text, rest⟩⟩) :
    Scans (c :: text) rest (IsToken kind (c :: text)) := by
  intro place
  let t : Token := ⟨kind, String.ofList (c :: text), .between place (place.after (c :: text))⟩
  refine ⟨[t], ⟨t, rfl, rfl, rfl⟩, ?_⟩
  rw [List.cons_append, scanFrom]
  split
  · rename_i fault found
    rw [read] at found
    cases found
  · rename_i piece found
    rw [read] at found
    cases found
    dsimp only
    cases scanFrom (place.after (c :: text)) rest <;> rfl

end Scans

/-! Marks and words -/

/-- What may follow a value inside a value, and the end of the text. -/
def Delimited (rest : List Char) : Prop := ∀ c ∈ rest.head?, c = ',' ∨ c = ']' ∨ c = '}'

theorem delimited_nil : Delimited [] := by
  intro c member
  cases member

theorem delimited_cons {c : Char} (delimiter : c = ',' ∨ c = ']' ∨ c = '}') (rest : List Char) :
    Delimited (c :: rest) := by
  intro d member
  cases member
  exact delimiter

/-- No delimiter passes a test that none of the three passes. -/
theorem Delimited.stops {rest : List Char} (delimited : Delimited rest) {p : Char → Bool}
    (comma : p ',' = false) (bracket : p ']' = false) (brace : p '}' = false) :
    ∀ c ∈ rest.head?, p c = false := by
  intro c member
  rcases delimited c member with rfl | rfl | rfl
  · exact comma
  · exact bracket
  · exact brace

theorem scans_mark {c : Char} {kind : TokenKind} (mark : TokenKind.ofMark? c = some kind)
    (rest : List Char) : Scans [c] rest (IsToken kind [c]) := by
  refine Scans.ofFront ?_
  rw [List.nil_append]
  unfold TokenKind.ofMark? at mark
  split at mark <;> cases mark <;> rfl

theorem scans_word {c : Char} {text rest : List Char} (start : isIdentifierStart c = true)
    (parts : ∀ d ∈ text, isIdentifierPart d = true) (delimited : Delimited rest) :
    Scans (c :: text) rest (IsToken .identifier (c :: text)) := by
  refine Scans.ofFront ?_
  have stop := delimited.stops (p := isIdentifierPart) rfl rfl rfl
  rw [front, if_pos start, Cut.span, takeWhile_stop parts stop, dropWhile_stop parts stop]
  rfl

/-! Numerals -/

theorem stops_append {p : Char → Bool} {first second : List Char}
    (before : ∀ c ∈ first.head?, p c = false) (behind : ∀ c ∈ second.head?, p c = false) :
    ∀ c ∈ (first ++ second).head?, p c = false := by
  cases first with
  | nil => exact behind
  | cons d first => exact before

namespace Numeral

theorem cutExponent_powerText (n : Numeral) {rest : List Char} (delimited : Delimited rest) :
    cutExponent (n.powerText ++ rest) = ⟨n.powerText, rest⟩ := by
  unfold powerText
  cases found : n.power with
  | none =>
    cases rest with
    | nil => rfl
    | cons c rest =>
      have noLetter : (c == 'e' || c == 'E') = false :=
        delimited.stops (p := fun c => c == 'e' || c == 'E') rfl rfl rfl c rfl
      simp [cutExponent, noLetter]
  | some power =>
    obtain ⟨negative, digits⟩ := power
    have all : IsDigits digits := n.powerDigits (negative, digits) found
    have stop := delimited.stops (p := Char.isDigit) rfl rfl rfl
    cases negative <;>
      simp [cutExponent, cutSign, Cut.andThen, Cut.span, Cut.cons, takeWhile_stop all.2 stop,
        dropWhile_stop all.2 stop]

theorem cutFraction_pointText (n : Numeral) {rest : List Char} (delimited : Delimited rest) :
    cutFraction (n.pointText ++ (n.powerText ++ rest)) = ⟨n.pointText, n.powerText ++ rest⟩ := by
  have letter (p : Char → Bool) (fails : p 'e' = false) : ∀ c ∈ n.powerText.head?, p c = false := by
    intro c member
    rw [n.head_powerText c member]
    exact fails
  by_cases whole : n.fraction = []
  · have noPoint := stops_append (letter (· == '.') rfl)
      (delimited.stops (p := (· == '.')) rfl rfl rfl)
    rw [pointText, if_pos whole, List.nil_append, cutFraction.eq_def]
    split
    · rename_i same
      rw [same] at noPoint
      cases noPoint '.' rfl
    · rfl
  · have stop := stops_append (letter Char.isDigit rfl)
      (delimited.stops (p := Char.isDigit) rfl rfl rfl)
    obtain ⟨d, digits, shown, digit⟩ := IsDigits.exists_cons ⟨whole, n.fractionDigits⟩
    have taken := takeWhile_stop n.fractionDigits stop
    have dropped := dropWhile_stop n.fractionDigits stop
    rw [shown, List.cons_append] at taken dropped
    rw [pointText, if_neg whole, shown, List.cons_append, List.cons_append, cutFraction,
      if_pos digit, Cut.span, taken, dropped]
    rfl

/-- A numeral is cut off where nothing that follows can belong to it. -/
theorem cutNumber_text (n : Numeral) {rest : List Char} (delimited : Delimited rest) :
    cutNumber (n.text ++ rest) = ⟨n.text, rest⟩ := by
  have stop := stops_append n.tail_stops_digits (delimited.stops (p := Char.isDigit) rfl rfl rfl)
  have taken := takeWhile_stop n.wholeDigits.2 stop
  have dropped := dropWhile_stop n.wholeDigits.2 stop
  rw [← List.append_assoc] at taken dropped
  rw [cutNumber, text, Cut.span, taken, dropped]
  simp only [Cut.andThen, List.append_assoc, n.cutFraction_pointText delimited,
    n.cutExponent_powerText delimited]

theorem endsInDigit_append (front : List Char) {digits : List Char} (all : IsDigits digits) :
    endsInDigit (front ++ digits) = true := by
  have last : (front ++ digits).getLast? = some (digits.getLast all.1) := by
    rw [List.getLast?_append, List.getLast?_eq_some_getLast all.1, Option.some_or]
  rw [endsInDigit, last]
  exact all.2 _ (List.getLast_mem all.1)

theorem endsInDigit_text (n : Numeral) : endsInDigit n.text = true := by
  cases found : n.power with
  | none =>
    have powerless : n.powerText = [] := by rw [powerText, found]
    by_cases whole : n.fraction = []
    · have shown : n.text = [] ++ n.whole := by
        simp [text, powerless, pointText, whole]
      rw [shown]
      exact endsInDigit_append [] n.wholeDigits
    · have shown : n.text = (n.whole ++ ['.']) ++ n.fraction := by
        simp [text, powerless, pointText, whole]
      rw [shown]
      exact endsInDigit_append _ ⟨whole, n.fractionDigits⟩
  | some power =>
    obtain ⟨negative, digits⟩ := power
    have all : IsDigits digits := n.powerDigits (negative, digits) found
    have shown : n.text =
        (n.whole ++ n.pointText ++ ['e', if negative then '-' else '+']) ++ digits := by
      simp [text, powerText, found]
    rw [shown]
    exact endsInDigit_append _ all

end Numeral

theorem not_isIdentifierStart_of_isDigit {c : Char} (digit : c.isDigit = true) :
    isIdentifierStart c = false := by
  have range : 48 ≤ c.val.toNat ∧ c.val.toNat ≤ 57 := Char.isDigit_iff_toNat.mp digit
  have other (d : Char) (letter : d.isDigit = false) : c ≠ d := by
    rintro rfl
    rw [digit] at letter
    cases letter
  have upper : c.isUpper = false := by
    refine decide_eq_false ?_
    rintro ⟨least, -⟩
    have above : 65 ≤ c.val.toNat := UInt32.le_iff_toNat_le.mp least
    omega
  have lower : c.isLower = false := by
    refine Bool.and_eq_false_iff.mpr (.inl (decide_eq_false ?_))
    intro least
    have above : 97 ≤ c.val.toNat := UInt32.le_iff_toNat_le.mp least
    omega
  have letter : c.isAlpha = false := Bool.or_eq_false_iff.mpr ⟨upper, lower⟩
  rw [isIdentifierStart, letter, beq_eq_false_iff_ne.mpr (other '_' rfl),
    beq_eq_false_iff_ne.mpr (other '$' rfl)]
  rfl

theorem scans_numeral (n : Numeral) {rest : List Char} (delimited : Delimited rest) :
    Scans n.text rest (IsToken .number n.text) := by
  obtain ⟨c, text, shown, digit⟩ := n.text_exists_cons
  have cut := n.cutNumber_text delimited
  have ends := n.endsInDigit_text
  rw [shown, List.cons_append] at cut
  rw [shown] at ends ⊢
  refine Scans.ofFront ?_
  have noWord : ¬(isIdentifierStart c = true) := by
    rw [not_isIdentifierStart_of_isDigit digit]
    decide
  rw [front, if_neg noWord, if_pos digit]
  simp only [cut, ends, if_true]

end MongoShell
