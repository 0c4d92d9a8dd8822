import MongoShell.Proofs.Token.Layout
import MongoShell.Proofs.Token.Scan

/-! The lexical grammar, and what the scanner reads against it. A piece that the scanner cuts off at
the front of a text is a lexeme of its kind. And no lexeme is missed: where a text starts with one,
the scanner cuts off a lexeme of the same kind that goes at least as far, unless that one is a
number that breaks off in its exponent. -/

namespace MongoShell

/-! The grammar -/

/-- Digits, or digits on both sides of a point. -/
inductive Mantissa : List Char → Prop
  | whole {digits : List Char} (all : IsDigits digits) : Mantissa digits
  | point {digits fraction : List Char} (all : IsDigits digits) (more : IsDigits fraction) :
      Mantissa (digits ++ '.' :: fraction)

/-- The letter in front of an exponent. -/
def ExponentMark (c : Char) : Prop := c = 'e' ∨ c = 'E'

/-- No sign, or one. -/
def Sign (text : List Char) : Prop := text = [] ∨ text = ['+'] ∨ text = ['-']

/-- What stands between the quotes of a string: no quote of that sort, no line feed and no
backslash, but behind a backslash any character. -/
inductive StringBody (quote : Char) : List Char → Prop
  | nil : StringBody quote []
  | escape (c : Char) {text : List Char} (others : StringBody quote text) :
      StringBody quote ('\\' :: c :: text)
  | plain {c : Char} {text : List Char} (noQuote : c ≠ quote) (noBackslash : c ≠ '\\')
      (inLine : c ≠ '\n') (others : StringBody quote text) : StringBody quote (c :: text)

/-- What stands between the brackets of a class in a pattern. -/
inductive ClassBody : List Char → Prop
  | nil : ClassBody []
  | escape {c : Char} {text : List Char} (inLine : c ≠ '\n') (others : ClassBody text) :
      ClassBody ('\\' :: c :: text)
  | plain {c : Char} {text : List Char} (noBracket : c ≠ ']') (noBackslash : c ≠ '\\')
      (inLine : c ≠ '\n') (others : ClassBody text) : ClassBody (c :: text)

/-- What stands between the slashes of a pattern: a slash only in a class or behind a backslash. -/
inductive PatternBody : List Char → Prop
  | nil : PatternBody []
  | escape {c : Char} {text : List Char} (inLine : c ≠ '\n') (others : PatternBody text) :
      PatternBody ('\\' :: c :: text)
  | bracket {inner text : List Char} (inside : ClassBody inner) (others : PatternBody text) :
      PatternBody ('[' :: (inner ++ ']' :: text))
  | plain {c : Char} {text : List Char} (noBracket : c ≠ '[') (noSlash : c ≠ '/')
      (noBackslash : c ≠ '\\') (inLine : c ≠ '\n') (others : PatternBody text) :
      PatternBody (c :: text)

/-- A pattern between slashes, and letters. -/
inductive Pattern : List Char → Prop
  | mk {body flags : List Char} (inside : PatternBody body) (letters : ∀ c ∈ flags, c.isAlpha) :
      Pattern ('/' :: (body ++ '/' :: flags))

/-- A text starts like a comment. -/
def OpensComment (text : List Char) : Prop := ['/', '/'] <+: text ∨ ['/', '*'] <+: text

/-- The trivia and the tokens of the language, each with the texts that it may have. -/
inductive Lexeme : Piece → List Char → Prop
  | blank {c : Char} (blank : isBlank c) : Lexeme .trivia [c]
  | lineComment {text : List Char} (inLine : '\n' ∉ text) : Lexeme .trivia ('/' :: '/' :: text)
  | blockComment {body : List Char} (opened : ¬['*', '/'] <:+: body) :
      Lexeme .trivia ('/' :: '*' :: (body ++ ['*', '/']))
  | identifier {c : Char} {text : List Char} (start : isIdentifierStart c)
      (parts : ∀ d ∈ text, isIdentifierPart d) : Lexeme (.token .identifier) (c :: text)
  | number {text : List Char} (mantissa : Mantissa text) : Lexeme (.token .number) text
  | scaledNumber {text sign digits : List Char} {c : Char} (mantissa : Mantissa text)
      (mark : ExponentMark c) (signed : Sign sign) (all : IsDigits digits) :
      Lexeme (.token .number) (text ++ c :: (sign ++ digits))
  | string {quote : Char} {body : List Char} (mark : quote = '"' ∨ quote = '\'')
      (inside : StringBody quote body) : Lexeme (.token .string) (quote :: (body ++ [quote]))
  | regex {text : List Char} (pattern : Pattern text) (noComment : ¬OpensComment text) :
      Lexeme (.token .regex) text
  | mark {c : Char} {kind : TokenKind} (mark : TokenKind.ofMark? c = some kind) :
      Lexeme (.token kind) [c]

/-- Marks are neither strings nor patterns. -/
theorem TokenKind.ofMark?_ne {c : Char} {kind : TokenKind} (mark : ofMark? c = some kind) :
    kind ≠ .string ∧ kind ≠ .regex := by
  unfold ofMark? at mark
  split at mark <;> cases mark <;> decide

theorem Lexeme.exists_quotes {text : List Char} (lexeme : Lexeme (.token .string) text) :
    ∃ quote body, (quote = '"' ∨ quote = '\'') ∧ StringBody quote body ∧
      text = quote :: (body ++ [quote]) := by
  cases lexeme with
  | string mark inside => exact ⟨_, _, mark, inside, rfl⟩
  | mark mark => exact absurd rfl (TokenKind.ofMark?_ne mark).1

theorem Lexeme.pattern {text : List Char} (lexeme : Lexeme (.token .regex) text) :
    Pattern text := by
  cases lexeme with
  | regex pattern noComment => exact pattern
  | mark mark => exact absurd rfl (TokenKind.ofMark?_ne mark).2

/-! Numbers -/

theorem ExponentMark.not_isDigit {c : Char} (mark : ExponentMark c) : c.isDigit = false := by
  rcases mark with rfl | rfl <;> rfl

theorem Sign.not_isDigit {sign : List Char} (signed : Sign sign) :
    ∀ c ∈ sign, c.isDigit = false := by
  rcases signed with rfl | rfl | rfl <;> simp

namespace Mantissa

variable {text : List Char}

theorem digit_or_point (mantissa : Mantissa text) : ∀ c ∈ text, c.isDigit = true ∨ c = '.' := by
  cases mantissa with
  | whole all => exact fun c member => .inl (all.2 c member)
  | point all more =>
    intro c member
    rcases List.mem_append.mp member with digit | behind
    · exact .inl (all.2 c digit)
    rcases List.mem_cons.mp behind with point | digit
    · exact .inr point
    · exact .inl (more.2 c digit)

theorem not_mem (mantissa : Mantissa text) {c : Char} (mark : ExponentMark c) : c ∉ text := by
  intro member
  rcases mantissa.digit_or_point c member with digit | rfl
  · rw [mark.not_isDigit] at digit
    cases digit
  · rcases mark with mark | mark <;> cases mark

theorem exists_cons (mantissa : Mantissa text) : ∃ c rest, text = c :: rest ∧ c.isDigit = true := by
  cases mantissa with
  | whole all => exact all.exists_cons
  | @point digits fraction all more =>
    obtain ⟨c, rest, rfl, digit⟩ := all.exists_cons
    exact ⟨c, rest ++ '.' :: fraction, rfl, digit⟩

theorem endsInDigit (mantissa : Mantissa text) : MongoShell.endsInDigit text = true := by
  cases mantissa with
  | whole all => exact Numeral.endsInDigit_append [] all
  | @point digits fraction all more =>
    rw [List.append_cons]
    exact Numeral.endsInDigit_append _ more

end Mantissa

/-- The digits of a number and those behind its point, as the scanner cuts them off. -/
def cutMantissa (text : List Char) : Cut := (Cut.span Char.isDigit text).andThen cutFraction

theorem cutNumber_eq (text : List Char) : cutNumber text = (cutMantissa text).andThen cutExponent :=
  rfl

/-- Characters that pass a test are all cut off. -/
theorem prefix_span {p : Char → Bool} {text : List Char} (passing : ∀ c ∈ text, p c = true)
    (rest : List Char) : text <+: (Cut.span p (text ++ rest)).text := by
  rw [Cut.span, List.takeWhile_append_of_pos passing]
  exact List.prefix_append _ _

/-- Characters that pass a test are cut off in front of one that does not. -/
theorem span_append {p : Char → Bool} {text rest : List Char} (passing : ∀ c ∈ text, p c = true)
    (stop : ∀ c ∈ rest.head?, p c = false) : Cut.span p (text ++ rest) = ⟨text, rest⟩ := by
  rw [Cut.span, takeWhile_stop passing stop, dropWhile_stop passing stop]

theorem cutFraction_digits {digits : List Char} (all : IsDigits digits) (rest : List Char) :
    cutFraction ('.' :: (digits ++ rest)) =
      (Cut.span Char.isDigit (digits ++ rest)).cons '.' := by
  obtain ⟨d, more, rfl, digit⟩ := all.exists_cons
  rw [List.cons_append, cutFraction, if_pos digit]

theorem isDigits_span {c : Char} (digit : c.isDigit = true) (text : List Char) :
    IsDigits (Cut.span Char.isDigit (c :: text)).text := by
  refine ⟨?_, fun d member => List.mem_takeWhile_imp member⟩
  simp [Cut.span, digit]

/-- The scanner starts a number with a mantissa. -/
theorem mantissa_cutMantissa {c : Char} (digit : c.isDigit = true) (text : List Char) :
    Mantissa (cutMantissa (c :: text)).text := by
  have whole := isDigits_span digit text
  unfold cutMantissa Cut.andThen
  generalize (Cut.span Char.isDigit (c :: text)).rest = rest
  simp only
  unfold cutFraction
  split
  · split
    · rename_i fraction
      exact .point whole (isDigits_span fraction _)
    · rw [List.append_nil]
      exact .whole whole
  · rw [List.append_nil]
    exact .whole whole

/-- Behind the point the digits go on as far as they can. -/
theorem cutMantissa_point {digits fraction : List Char} (all : IsDigits digits)
    (more : IsDigits fraction) (rest : List Char) :
    cutMantissa (digits ++ '.' :: fraction ++ rest) =
      ⟨digits ++ '.' :: (Cut.span Char.isDigit (fraction ++ rest)).text,
        (Cut.span Char.isDigit (fraction ++ rest)).rest⟩ := by
  have point : ∀ d ∈ ('.' :: (fraction ++ rest)).head?, d.isDigit = false := by
    rintro d ⟨⟩
    rfl
  rw [cutMantissa, List.append_assoc, List.cons_append, span_append all.2 point]
  simp only [Cut.andThen, cutFraction_digits more, Cut.cons]

/-- A mantissa is cut off where the letter of an exponent follows. -/
theorem Mantissa.cut {text : List Char} (mantissa : Mantissa text) {c : Char}
    (mark : ExponentMark c) (rest : List Char) :
    cutMantissa (text ++ c :: rest) = ⟨text, c :: rest⟩ := by
  have stop : ∀ d ∈ (c :: rest).head?, d.isDigit = false := by
    rintro d ⟨⟩
    exact mark.not_isDigit
  cases mantissa with
  | whole all =>
    have noPoint : c ≠ '.' := by rcases mark with rfl | rfl <;> decide
    rw [cutMantissa, span_append all.2 stop]
    simp only [Cut.andThen, cutFraction_other noPoint, List.append_nil]
  | point all more => rw [cutMantissa_point all more, span_append more.2 stop]

/-- No digit of a mantissa is missed. -/
theorem Mantissa.prefix_cut {text : List Char} (mantissa : Mantissa text) (rest : List Char) :
    text <+: (cutMantissa (text ++ rest)).text := by
  cases mantissa with
  | whole all => exact (prefix_span all.2 rest).trans (List.prefix_append _ _)
  | @point digits fraction all more =>
    rw [cutMantissa_point all more, List.prefix_append_right_inj]
    exact List.cons_prefix_cons.mpr ⟨rfl, prefix_span more.2 rest⟩

theorem cutExponent_mark {c : Char} (mark : ExponentMark c) (text : List Char) :
    cutExponent (c :: text) = ((cutSign text).andThen (Cut.span Char.isDigit)).cons c := by
  rw [cutExponent, if_pos]
  simpa [ExponentMark] using mark

theorem cutExponent_other {text : List Char} (noMark : ∀ c ∈ text.head?, ¬ExponentMark c) :
    cutExponent text = ⟨[], text⟩ := by
  cases text with
  | nil => rfl
  | cons c text =>
    rw [cutExponent, if_neg]
    simpa [ExponentMark] using noMark c rfl

theorem sign_cutSign (text : List Char) : Sign (cutSign text).text := by
  cases text with
  | nil => exact .inl rfl
  | cons c text =>
    rw [cutSign]
    split
    · rename_i sign
      simp only [Bool.or_eq_true, beq_iff_eq] at sign
      rcases sign with rfl | rfl
      · exact .inr (.inl rfl)
      · exact .inr (.inr rfl)
    · exact .inl rfl

theorem Sign.cut {sign digits : List Char} (signed : Sign sign) (all : IsDigits digits)
    (rest : List Char) : cutSign (sign ++ (digits ++ rest)) = ⟨sign, digits ++ rest⟩ := by
  rcases signed with rfl | rfl | rfl
  · obtain ⟨d, more, rfl, digit⟩ := all.exists_cons
    have noSign : ¬((d == '+' || d == '-') = true) := by
      intro sign
      simp only [Bool.or_eq_true, beq_iff_eq] at sign
      rcases sign with rfl | rfl <;> cases digit
    rw [List.nil_append, List.cons_append, cutSign, if_neg noSign]
  · rfl
  · rfl

/-- The number at the front of a text is a mantissa, and nothing else unless the letter of an
exponent follows. Then the number takes the letter along, with a sign and digits if they are there.
-/
theorem cutNumber_cases {c : Char} (digit : c.isDigit = true) (text : List Char) :
    Mantissa (cutNumber (c :: text)).text ∨
      ∃ mantissa sign digits mark, Mantissa mantissa ∧ ExponentMark mark ∧ Sign sign ∧
        (∀ d ∈ digits, d.isDigit = true) ∧
        (cutNumber (c :: text)).text = mantissa ++ mark :: (sign ++ digits) := by
  have mantissa := mantissa_cutMantissa digit text
  rw [cutNumber_eq]
  generalize cutMantissa (c :: text) = cut at mantissa
  obtain ⟨front, rest⟩ := cut
  simp only [Cut.andThen]
  by_cases noMark : ∀ d ∈ rest.head?, ¬ExponentMark d
  · rw [cutExponent_other noMark, List.append_nil]
    exact .inl mantissa
  · push Not at noMark
    obtain ⟨mark, first, isMark⟩ := noMark
    obtain ⟨behind, rfl⟩ := List.head?_eq_some_iff.mp first
    rw [cutExponent_mark isMark]
    exact .inr ⟨front, _, _, mark, mantissa, isMark, sign_cutSign behind,
      fun d member => List.mem_takeWhile_imp member, rfl⟩

/-- Without a digit an exponent would end in its sign or in its letter. -/
theorem exponent_ne_nil {front sign digits : List Char} {mark : Char} (isMark : ExponentMark mark)
    (signed : Sign sign)
    (ends : MongoShell.endsInDigit (front ++ mark :: (sign ++ digits)) = true) : digits ≠ [] := by
  rintro rfl
  have last : ∀ d ∈ (front ++ mark :: (sign ++ [])).getLast?, d.isDigit = false := by
    rw [List.append_nil, List.getLast?_append, List.getLast?_cons]
    rintro d ⟨⟩
    cases found : sign.getLast? with
    | none => exact isMark.not_isDigit
    | some s => exact signed.not_isDigit s (List.mem_of_getLast? found)
  obtain ⟨d, found, isDigit⟩ := (Option.any_eq_true ..).mp ends
  rw [last d found] at isDigit
  cases isDigit

/-- A number that ends in a digit is a lexeme. -/
theorem lexeme_cutNumber {c : Char} {text : List Char} (digit : c.isDigit = true)
    (ends : endsInDigit (cutNumber (c :: text)).text = true) :
    Lexeme (.token .number) (cutNumber (c :: text)).text := by
  rcases cutNumber_cases digit text with mantissa | ⟨front, sign, digits, mark, mantissa, isMark,
    signed, all, shown⟩
  · exact .number mantissa
  · rw [shown] at ends ⊢
    exact .scaledNumber mantissa isMark signed ⟨exponent_ne_nil isMark signed ends, all⟩

/-- A number that does not end in a digit breaks off behind the letter of its exponent. -/
theorem exists_bareExponent {c : Char} {text : List Char} (digit : c.isDigit = true)
    (ends : ¬endsInDigit (cutNumber (c :: text)).text = true) :
    ∃ mantissa mark more, Mantissa mantissa ∧ ExponentMark mark ∧
      c :: text = mantissa ++ mark :: more := by
  rcases cutNumber_cases digit text with mantissa | ⟨front, sign, digits, mark, mantissa, isMark,
    -, -, shown⟩
  · exact absurd mantissa.endsInDigit ends
  · have whole := whole_cutNumber (c :: text)
    rw [Cut.whole, shown, List.append_assoc] at whole
    exact ⟨front, mark, _, mantissa, isMark, whole.symm⟩

theorem Mantissa.prefix_cutNumber {text : List Char} (mantissa : Mantissa text)
    (rest : List Char) : text <+: (cutNumber (text ++ rest)).text :=
  (mantissa.prefix_cut rest).trans (List.prefix_append _ _)

/-- A mantissa with the letter of an exponent behind it is not the whole number. -/
theorem Mantissa.cutNumber_mark {text : List Char} (mantissa : Mantissa text) {c : Char}
    (mark : ExponentMark c) (rest : List Char) :
    ∃ more, (cutNumber (text ++ c :: rest)).text = text ++ c :: more := by
  rw [cutNumber_eq, mantissa.cut mark]
  simp only [Cut.andThen, cutExponent_mark mark]
  exact ⟨_, rfl⟩

/-- A number with an exponent is cut off with all digits that follow. -/
theorem Mantissa.cutNumber_scaled {text sign digits : List Char} (mantissa : Mantissa text)
    {c : Char} (mark : ExponentMark c) (signed : Sign sign) (all : IsDigits digits)
    (rest : List Char) :
    text ++ c :: (sign ++ digits) <+: (cutNumber (text ++ c :: (sign ++ digits) ++ rest)).text ∧
      MongoShell.endsInDigit (cutNumber (text ++ c :: (sign ++ digits) ++ rest)).text = true := by
  have further : IsDigits (digits ++ rest.takeWhile Char.isDigit) := by
    refine ⟨fun empty => all.1 (List.append_eq_nil_iff.mp empty).1, fun d member => ?_⟩
    rcases List.mem_append.mp member with first | more
    · exact all.2 d first
    · exact List.mem_takeWhile_imp more
  have shown : (cutNumber (text ++ c :: (sign ++ digits) ++ rest)).text =
      (text ++ c :: sign) ++ (digits ++ rest.takeWhile Char.isDigit) := by
    rw [List.append_assoc, List.cons_append, List.append_assoc, cutNumber_eq, mantissa.cut mark]
    simp only [Cut.andThen, cutExponent_mark mark, signed.cut all, Cut.span, Cut.cons,
      List.takeWhile_append_of_pos all.2, List.append_assoc, List.cons_append]
  rw [shown]
  refine ⟨?_, Numeral.endsInDigit_append _ further⟩
  rw [← List.append_assoc, List.append_assoc text, List.cons_append]
  exact List.prefix_append _ _

/-! Strings -/

/-- What is left of a string through its closing quote, behind a backslash or not. -/
def StringRest (quote : Char) (escaped : Bool) (text : List Char) : Prop :=
  ∃ body, StringBody quote body ∧
    if escaped then ∃ c, text = c :: (body ++ [quote]) else text = body ++ [quote]

theorem stringRest_of_cutString {quote : Char} {escaped : Bool} {text : List Char} {cut : Cut}
    (found : cutString quote escaped text = some cut) : StringRest quote escaped cut.text := by
  induction text generalizing escaped cut with
  | nil => cases found
  | cons c text ih =>
    unfold cutString at found
    split at found
    · rename_i isEscaped
      obtain ⟨inner, read, rfl⟩ := Option.map_eq_some_iff.mp found
      obtain ⟨body, inside, shown⟩ := ih read
      rw [if_neg Bool.false_ne_true] at shown
      refine ⟨body, inside, ?_⟩
      rw [if_pos isEscaped]
      exact ⟨c, congrArg (c :: ·) shown⟩
    rename_i plain
    split at found
    · rename_i closes
      cases found
      refine ⟨[], .nil, ?_⟩
      rw [if_neg plain, closes]
      rfl
    rename_i noQuote
    split at found
    · cases found
    rename_i inLine
    obtain ⟨inner, read, rfl⟩ := Option.map_eq_some_iff.mp found
    obtain ⟨body, inside, shown⟩ := ih read
    split at shown
    · rename_i backslash
      obtain rfl := beq_iff_eq.mp backslash
      obtain ⟨d, shown⟩ := shown
      refine ⟨'\\' :: d :: body, .escape d inside, ?_⟩
      rw [if_neg plain, Cut.cons, shown]
      rfl
    · rename_i noBackslash
      refine ⟨c :: body, .plain noQuote (by simpa using noBackslash) inLine inside, ?_⟩
      rw [if_neg plain, Cut.cons, shown]
      rfl

/-- A string is cut off at its closing quote. -/
theorem StringBody.cut {quote : Char} {body : List Char} (inside : StringBody quote body)
    (mark : quote = '"' ∨ quote = '\'') (rest : List Char) :
    cutString quote false (body ++ quote :: rest) = some ⟨body ++ [quote], rest⟩ := by
  induction inside with
  | nil => simp [cutString]
  | escape c _ ih =>
    have opened : '\\' ≠ quote := by rcases mark with rfl | rfl <;> decide
    simp [cutString, opened, ih, Cut.cons]
  | @plain c _ noQuote noBackslash inLine _ ih =>
    have unescaped : (c == '\\') = false := beq_eq_false_iff_ne.mpr noBackslash
    simp [cutString, noQuote, unescaped, inLine, ih, Cut.cons]

/-! Regular expressions -/

/-- What is left of a pattern through its closing slash, inside a class or outside. -/
def PatternRest (inClass : Bool) (text : List Char) : Prop :=
  if inClass then
    ∃ inner body, ClassBody inner ∧ PatternBody body ∧ text = inner ++ ']' :: (body ++ ['/'])
  else ∃ body, PatternBody body ∧ text = body ++ ['/']

namespace PatternRest

variable {inClass : Bool} {text : List Char} {c : Char}

theorem escape (rest : PatternRest inClass text) (inLine : c ≠ '\n') :
    PatternRest inClass ('\\' :: c :: text) := by
  cases inClass with
  | true =>
    obtain ⟨inner, body, chars, inside, rfl⟩ := rest
    exact ⟨'\\' :: c :: inner, body, .escape inLine chars, inside, rfl⟩
  | false =>
    obtain ⟨body, inside, rfl⟩ := rest
    exact ⟨'\\' :: c :: body, .escape inLine inside, rfl⟩

/-- A character that is not escaped goes in front, if it does not close the pattern. -/
theorem cons (rest : PatternRest (c == '[' || (inClass && c != ']')) text)
    (opened : ¬(c = '/' && !inClass) = true) (noBackslash : c ≠ '\\') (inLine : c ≠ '\n') :
    PatternRest inClass (c :: text) := by
  cases inClass with
  | true =>
    by_cases closes : c = ']'
    · subst closes
      obtain ⟨body, inside, rfl⟩ := rest
      exact ⟨[], body, .nil, inside, rfl⟩
    · have still : (c == '[' || (true && c != ']')) = true := by simp [closes]
      rw [still] at rest
      obtain ⟨inner, body, chars, inside, rfl⟩ := rest
      exact ⟨c :: inner, body, .plain closes noBackslash inLine chars, inside, rfl⟩
  | false =>
    by_cases opens : c = '['
    · subst opens
      obtain ⟨inner, body, chars, inside, rfl⟩ := rest
      exact ⟨'[' :: (inner ++ ']' :: body), .bracket chars inside, by simp⟩
    · have still : (c == '[' || (false && c != ']')) = false := by simp [opens]
      rw [still] at rest
      obtain ⟨body, inside, rfl⟩ := rest
      have noSlash : c ≠ '/' := by simpa using opened
      exact ⟨c :: body, .plain opens noSlash noBackslash inLine inside, rfl⟩

end PatternRest

theorem patternRest_of_cutRegex {escaped inClass : Bool} {text : List Char} {cut : Cut}
    (found : cutRegex escaped inClass text = some cut) :
    if escaped then ∃ c rest, c ≠ '\n' ∧ cut.text = c :: rest ∧ PatternRest inClass rest
      else PatternRest inClass cut.text := by
  induction text generalizing escaped inClass cut with
  | nil => cases found
  | cons c text ih =>
    unfold cutRegex at found
    split at found
    · cases found
    rename_i inLine
    split at found
    · rename_i isEscaped
      obtain ⟨inner, read, rfl⟩ := Option.map_eq_some_iff.mp found
      rw [if_pos isEscaped]
      exact ⟨c, inner.text, inLine, rfl, ih read⟩
    rename_i plain
    rw [if_neg plain]
    split at found
    · rename_i closes
      cases found
      simp only [Bool.and_eq_true, decide_eq_true_eq, Bool.not_eq_true'] at closes
      obtain ⟨rfl, rfl⟩ := closes
      exact ⟨[], .nil, rfl⟩
    rename_i opened
    obtain ⟨inner, read, rfl⟩ := Option.map_eq_some_iff.mp found
    have rest := ih read
    split at rest
    · rename_i backslash
      obtain rfl := beq_iff_eq.mp backslash
      obtain ⟨d, behind, noFeed, shown, rest⟩ := rest
      have same : ('\\' == '[' || (inClass && '\\' != ']')) = inClass := by simp
      rw [same] at rest
      rw [Cut.cons, shown]
      exact rest.escape noFeed
    · rename_i noBackslash
      exact rest.cons opened (by simpa using noBackslash) inLine

/-- A pattern is cut off at its closing slash: in a class the reader goes on behind the bracket. -/
theorem ClassBody.cut {inner : List Char} (chars : ClassBody inner) {rest : List Char} {cut : Cut}
    (found : cutRegex false false rest = some cut) :
    cutRegex false true (inner ++ ']' :: rest) = some ⟨inner ++ ']' :: cut.text, cut.rest⟩ := by
  induction chars with
  | nil => simp [cutRegex, found, Cut.cons]
  | escape inLine _ ih => simp [cutRegex, inLine, ih, Cut.cons]
  | @plain c _ noBracket noBackslash inLine _ ih =>
    have unescaped : (c == '\\') = false := beq_eq_false_iff_ne.mpr noBackslash
    have still : (c == '[' || c != ']') = true := by simp [noBracket]
    simp [cutRegex, inLine, still, unescaped, ih, Cut.cons]

theorem PatternBody.cut {body : List Char} (inside : PatternBody body) (rest : List Char) :
    cutRegex false false (body ++ '/' :: rest) = some ⟨body ++ ['/'], rest⟩ := by
  induction inside with
  | nil => simp [cutRegex]
  | escape inLine _ ih => simp [cutRegex, inLine, ih, Cut.cons]
  | bracket chars _ ih =>
    rw [List.cons_append, List.append_assoc, List.cons_append]
    simp [cutRegex, chars.cut ih, Cut.cons]
  | @plain c _ noBracket noSlash noBackslash inLine _ ih =>
    have unescaped : (c == '\\') = false := beq_eq_false_iff_ne.mpr noBackslash
    have outside : (c == '[') = false := beq_eq_false_iff_ne.mpr noBracket
    simp [cutRegex, inLine, noSlash, unescaped, outside, ih, Cut.cons]

/-! Comments -/

/-- A comment goes no further than the first closing mark. -/
theorem opened_of_cutComment {text : List Char} {cut : Cut} (found : cutComment text = some cut) :
    ∃ body, ¬['*', '/'] <:+: body ∧ cut.text = body ++ ['*', '/'] := by
  induction text generalizing cut with
  | nil => cases found
  | cons c text ih =>
    unfold cutComment at found
    split at found
    · cases found
      exact ⟨[], by simp, rfl⟩
    · rename_i goesOn
      obtain ⟨inner, read, rfl⟩ := Option.map_eq_some_iff.mp found
      obtain ⟨body, opened, shown⟩ := ih read
      refine ⟨c :: body, ?_, congrArg (c :: ·) shown⟩
      intro inside
      rcases List.infix_cons_iff.mp inside with first | later
      · -- the mark would stand at the front, where the reader would have stopped
        obtain ⟨behind, same⟩ := first
        obtain ⟨rfl, rfl⟩ := List.cons.inj same
        have whole := whole_cutComment read
        rw [Cut.whole, shown] at whole
        rw [← whole] at goesOn
        exact goesOn rfl
      · exact opened later

/-! The piece at the front of a text -/

theorem opensComment_slash {text : List Char} :
    OpensComment ('/' :: text) ↔ text.head? = some '/' ∨ text.head? = some '*' := by
  cases text with
  | nil => simp [OpensComment]
  | cons c text => simp [OpensComment, List.cons_prefix_cons, eq_comm]

theorem lexeme_of_slashFront {text : List Char} {result : Front}
    (read : slashFront text = .ok result) : Lexeme result.piece result.cut.text := by
  unfold slashFront at read
  split at read
  · cases read
    refine .lineComment fun member => ?_
    have passing := List.mem_takeWhile_imp (p := (· != '\n')) member
    cases passing
  · split at read
    · rename_i cut found
      cases read
      obtain ⟨body, opened, shown⟩ := opened_of_cutComment found
      change Lexeme .trivia ('/' :: '*' :: cut.text)
      rw [shown]
      exact .blockComment opened
    · cases read
  · rename_i noLine noBlock
    split at read
    · rename_i cut found
      cases read
      have whole := whole_cutRegex found
      obtain ⟨body, inside, shown⟩ := patternRest_of_cutRegex found
      change Lexeme (.token .regex) ('/' :: (cut.text ++ cut.rest.takeWhile Char.isAlpha))
      rw [Cut.whole] at whole
      rw [shown] at whole ⊢
      rw [List.append_assoc, List.singleton_append]
      refine .regex (.mk inside fun c member => List.mem_takeWhile_imp member) ?_
      have first : (body ++ '/' :: cut.rest.takeWhile Char.isAlpha).head? = text.head? := by
        rw [← whole]
        cases body <;> rfl
      rw [opensComment_slash, first]
      rintro (line | block)
      · obtain ⟨rest, same⟩ := List.head?_eq_some_iff.mp line
        exact noLine rest same
      · obtain ⟨rest, same⟩ := List.head?_eq_some_iff.mp block
        exact noBlock rest same
    · cases read

/-- What the scanner reads is a lexeme. -/
theorem lexeme_of_front {c : Char} {text : List Char} {result : Front}
    (read : front c text = .ok result) : Lexeme result.piece result.cut.text := by
  unfold front at read
  split at read
  · rename_i start
    cases read
    exact .identifier start fun d member => List.mem_takeWhile_imp member
  split at read
  · rename_i digit
    simp only at read
    split at read
    · rename_i ends
      cases read
      exact lexeme_cutNumber digit ends
    · cases read
  split at read
  · rename_i quote
    split at read
    · rename_i cut found
      cases read
      obtain ⟨body, inside, shown⟩ := stringRest_of_cutString found
      rw [if_neg Bool.false_ne_true] at shown
      change Lexeme (.token .string) (c :: cut.text)
      rw [shown]
      exact .string (by simpa using quote) inside
    · cases read
  split at read
  · rename_i slash
    subst slash
    exact lexeme_of_slashFront read
  split at read
  · rename_i blank
    cases read
    exact .blank blank
  split at read
  · rename_i kind mark
    cases read
    exact .mark mark
  · cases read

/-! No lexeme is missed -/

/-- The piece at the front of a text and what follows it is of that sort, starts with the text and
goes at least as far. -/
def Covered (sort : Piece) (text rest : List Char) : Prop :=
  ∃ more behind, rest = more ++ behind ∧ Starts (text ++ more) behind sort

/-- The number at the front of a text breaks off in its exponent. -/
def BreaksOff (text : List Char) : Prop :=
  ∃ c source, text = c :: source ∧ c.isDigit = true ∧
    ¬endsInDigit (cutNumber (c :: source)).text = true

theorem front_digit {c : Char} (digit : c.isDigit = true) (text : List Char) :
    front c text =
      if endsInDigit (cutNumber (c :: text)).text then .ok ⟨.token .number, cutNumber (c :: text)⟩
      else .error (.bareExponent (String.ofList (cutNumber (c :: text)).text)) := by
  have noWord : ¬isIdentifierStart c = true := by
    rw [not_isIdentifierStart_of_isDigit digit]
    exact Bool.false_ne_true
  rw [front, if_neg noWord, if_pos digit]

theorem front_quote {quote : Char} (mark : quote = '"' ∨ quote = '\'') (text : List Char) :
    front quote text =
      match cutString quote false text with
      | some cut => .ok ⟨.token .string, cut.cons quote⟩
      | none => .error (.unclosedString quote) := by
  rcases mark with rfl | rfl <;> rfl

theorem front_mark {c : Char} {kind : TokenKind} (mark : TokenKind.ofMark? c = some kind)
    (text : List Char) : front c text = .ok ⟨.token kind, ⟨[c], text⟩⟩ := by
  unfold TokenKind.ofMark? at mark
  split at mark <;> cases mark <;> rfl

theorem covered_of_front {sort : Piece} {c : Char} {text rest source : List Char} {cut : Cut}
    (whole : text ++ rest = c :: source) (read : front c source = .ok ⟨sort, cut⟩)
    (covers : text <+: cut.text) : Covered sort text rest := by
  obtain ⟨same, starts⟩ := starts_of_front read
  obtain ⟨more, shown⟩ := covers
  simp only at same starts
  rw [← whole, ← shown, List.append_assoc] at same
  rw [← shown] at starts
  exact ⟨more, cut.rest, List.append_cancel_left same, starts⟩

theorem Starts.covered {sort : Piece} {text rest : List Char} (starts : Starts text rest sort) :
    Covered sort text rest :=
  ⟨[], rest, rfl, by rwa [List.append_nil]⟩

theorem covered_lineComment {text : List Char} (inLine : '\n' ∉ text) (rest : List Char) :
    Covered .trivia ('/' :: '/' :: text) rest := by
  have passing : ∀ c ∈ text, (c != '\n') = true := by
    intro c member
    simp only [bne_iff_ne]
    rintro rfl
    exact inLine member
  have covers := prefix_span (p := (· != '\n')) passing rest
  exact covered_of_front rfl (front_slash _)
    (List.cons_prefix_cons.mpr ⟨rfl, List.cons_prefix_cons.mpr ⟨rfl, covers⟩⟩)

theorem covered_identifier {c : Char} {text : List Char} (start : isIdentifierStart c = true)
    (parts : ∀ d ∈ text, isIdentifierPart d = true) (rest : List Char) :
    Covered (.token .identifier) (c :: text) rest := by
  have covers := prefix_span parts rest
  exact covered_of_front rfl (if_pos start) (List.cons_prefix_cons.mpr ⟨rfl, covers⟩)

theorem covered_string {quote : Char} {body : List Char} (mark : quote = '"' ∨ quote = '\'')
    (inside : StringBody quote body) (rest : List Char) :
    Covered (.token .string) (quote :: (body ++ [quote])) rest := by
  have closed := inside.cut mark rest
  have read := front_quote mark (body ++ quote :: rest)
  rw [closed] at read
  refine covered_of_front ?_ read (List.prefix_refl _)
  rw [List.cons_append, List.append_assoc, List.singleton_append]

/-- A pattern that does not start a comment is read through its closing slash and all letters
behind. -/
theorem front_pattern {c : Char} {text : List Char} (inside : PatternBody (c :: text))
    (noLine : c ≠ '/') (noBlock : c ≠ '*') (rest : List Char) :
    front '/' (c :: text ++ '/' :: rest) = .ok ⟨.token .regex,
      ((⟨c :: text ++ ['/'], rest⟩ : Cut).andThen (Cut.span Char.isAlpha)).cons '/'⟩ := by
  have closed := inside.cut rest
  rw [List.cons_append] at closed ⊢
  rw [front_slash, slashFront_regex noLine noBlock, closed]

theorem covered_regex {text : List Char} (pattern : Pattern text) (noComment : ¬OpensComment text)
    (rest : List Char) : Covered (.token .regex) text rest := by
  obtain @⟨body, flags, inside, letters⟩ := pattern
  rw [opensComment_slash, not_or] at noComment
  cases body with
  | nil => exact absurd rfl noComment.1
  | cons c body =>
    have noLine : c ≠ '/' := fun same => noComment.1 (congrArg some same)
    have noBlock : c ≠ '*' := fun same => noComment.2 (congrArg some same)
    refine covered_of_front ?_ (front_pattern inside noLine noBlock (flags ++ rest)) ?_
    · simp
    · have covers := prefix_span letters rest
      simp [Cut.cons, Cut.andThen, covers]

theorem covered_number {text rest : List Char} {c : Char} {source : List Char}
    (whole : text ++ rest = c :: source) (digit : c.isDigit = true)
    (covers : text <+: (cutNumber (text ++ rest)).text)
    (ends : endsInDigit (cutNumber (text ++ rest)).text = true) :
    Covered (.token .number) text rest := by
  rw [whole] at covers ends
  have read := front_digit digit source
  rw [if_pos ends] at read
  exact covered_of_front whole read covers

/-- Where a text starts with a lexeme, the scanner reads that lexeme or one that goes further; only
a number is refused if more follows that makes it break off in its exponent. -/
theorem Lexeme.covered {sort : Piece} {text : List Char} (lexeme : Lexeme sort text)
    (rest : List Char) :
    Covered sort text rest ∨ Mantissa text ∧ BreaksOff (text ++ rest) := by
  cases lexeme with
  | blank blank => exact .inl (starts_blank blank rest).covered
  | lineComment inLine => exact .inl (covered_lineComment inLine rest)
  | blockComment opened => exact .inl (starts_block opened rest).covered
  | identifier start parts => exact .inl (covered_identifier start parts rest)
  | number mantissa =>
    obtain ⟨c, digits, shown, digit⟩ := mantissa.exists_cons
    have whole : text ++ rest = c :: (digits ++ rest) := by rw [shown, List.cons_append]
    by_cases ends : endsInDigit (cutNumber (text ++ rest)).text = true
    · exact .inl (covered_number whole digit (mantissa.prefix_cutNumber rest) ends)
    · rw [whole] at ends
      exact .inr ⟨mantissa, c, _, whole, digit, ends⟩
  | @scaledNumber front sign digits mark mantissa isMark signed all =>
    obtain ⟨c, more, rfl, digit⟩ := mantissa.exists_cons
    have ⟨covers, ends⟩ := mantissa.cutNumber_scaled isMark signed all rest
    exact .inl (covered_number rfl digit covers ends)
  | string mark inside => exact .inl (covered_string mark inside rest)
  | regex pattern noComment => exact .inl (covered_regex pattern noComment rest)
  | mark mark => exact .inl (covered_of_front rfl (front_mark mark rest) (List.prefix_refl _))

end MongoShell
