import MongoShell.Proofs.Script.Layout
import MongoShell.Proofs.Token.Lexeme
import MongoShell.Proofs.Value.WholeNumber

/-! Integer literals. Digits with a sign in front of them, which may stand apart from them, are read
as one number wherever a value is to start, and the value is that number in the narrowest integer
type that takes it. -/

namespace MongoShell

open Grammar

/-- The text of an integer literal, and the number that it writes. Blanks and comments may stand
behind the sign. -/
inductive IntegerText : List Char → Int → Prop
  | plain {digits : List Char} (all : IsDigits digits) : IntegerText digits (digitsValue digits)
  | plus {gap digits : List Char} (filler : Filler gap) (all : IsDigits digits) :
      IntegerText ('+' :: (gap ++ digits)) (digitsValue digits)
  | minus {gap digits : List Char} (filler : Filler gap) (all : IsDigits digits) :
      IntegerText ('-' :: (gap ++ digits)) (-(digitsValue digits : Int))

/-- Nothing at the front of a text goes on with the digits of an integer: no digit, no letter of an
exponent, and no point with a digit behind it. -/
def EndsInteger (rest : List Char) : Prop :=
  (∀ c ∈ rest.head?, c.isDigit = false ∧ ¬ExponentMark c) ∧
    ∀ d more, rest = '.' :: d :: more → d.isDigit = false

/-- An outcome is a number in the narrowest integer type that takes it, and an error if none does.
-/
structure Narrowest (n : Int) (outcome : Except ConversionError Value) : Prop where
  narrow : -2 ^ 31 ≤ n → n < 2 ^ 31 → ∃ v : Int32, v.toInt = n ∧ outcome = .ok (.int32 v)
  wide : n < -2 ^ 31 ∨ 2 ^ 31 ≤ n → -2 ^ 63 ≤ n → n < 2 ^ 63 →
    ∃ v : Int64, v.toInt = n ∧ outcome = .ok (.int64 v)
  wider : n < -2 ^ 63 ∨ 2 ^ 63 ≤ n → ∃ fault, outcome = .error fault

/-! The tokens of a literal -/

theorem cutNumber_digits {digits rest : List Char} (all : IsDigits digits)
    (ends : EndsInteger rest) : cutNumber (digits ++ rest) = ⟨digits, rest⟩ := by
  obtain ⟨first, noFraction⟩ := ends
  have fraction : cutFraction rest = ⟨[], rest⟩ := by
    match rest with
    | [] => rfl
    | [c] => exact cutFraction_single c
    | c :: d :: more =>
      by_cases point : c = '.'
      · subst point
        simp [cutFraction, noFraction d more rfl]
      · exact cutFraction_other point _
  have exponent : cutExponent rest = ⟨[], rest⟩ :=
    cutExponent_other fun c member => (first c member).2
  rw [cutNumber_eq, cutMantissa, span_append all.2 fun c member => (first c member).1]
  simp only [Cut.andThen, fraction, exponent, List.append_nil]

theorem scans_digits {digits rest : List Char} (all : IsDigits digits)
    (ends : EndsInteger rest) : Scans digits rest (IsToken .number digits) := by
  have cut := cutNumber_digits all ends
  have last : endsInDigit digits = true := Numeral.endsInDigit_append [] all
  obtain ⟨c, digits, rfl, digit⟩ := all.exists_cons
  refine Scans.ofFront ?_
  rw [List.cons_append] at cut
  rw [front_digit digit, cut, if_pos last]

theorem Filler.scans {gap : List Char} (filler : Filler gap) (rest : List Char) :
    Scans gap rest (· = []) := by
  intro place
  refine ⟨[], rfl, ?_⟩
  rw [filler.scanFrom_eq]
  cases scanFrom (place.after gap) rest <;> rfl

/-- Tokens are a number literal with a lexeme, whatever ends it. -/
def IsLiteral (lexeme : String) (own : List Token) : Prop :=
  ∀ next : Token, next.kind ∉ [.dot, .leftBracket, .leftParen] →
    Whole own next (.number Expr.nowhere lexeme)

theorem isLiteral_digits {digits : List Char} {own : List Token}
    (isNumber : IsToken .number digits own) : IsLiteral (String.ofList digits) own := by
  obtain ⟨t, rfl, kind, shown⟩ := isNumber
  rw [← shown]
  exact fun next ends => .inr ⟨⟨false, .number kind⟩, ends⟩

theorem isLiteral_plus {digits : List Char} {sign own : List Token}
    (isSign : IsToken .plus ['+'] sign) (isNumber : IsToken .number digits own) :
    IsLiteral (String.ofList digits) (sign ++ own) := by
  obtain ⟨s, rfl, isPlus, -⟩ := isSign
  obtain ⟨t, rfl, kind, shown⟩ := isNumber
  rw [← shown]
  exact fun next _ => .inl (.plus isPlus (.inl kind))

theorem isLiteral_minus {digits : List Char} {sign own : List Token}
    (isSign : IsToken .minus ['-'] sign) (isNumber : IsToken .number digits own) :
    IsLiteral (String.ofList ('-' :: digits)) (sign ++ own) := by
  obtain ⟨s, rfl, isMinus, -⟩ := isSign
  obtain ⟨t, rfl, kind, shown⟩ := isNumber
  have joined : String.ofList ('-' :: digits) = "-" ++ t.text := by
    rw [shown, ← List.singleton_append, String.ofList_append]
  rw [joined]
  exact fun next _ => .inl (.minus isMinus (.inl kind))

/-- A sign, what stands behind it, and the digits. -/
theorem scans_apart {c : Char} {kind : TokenKind} {gap digits rest : List Char}
    (mark : TokenKind.ofMark? c = some kind) (filler : Filler gap) (all : IsDigits digits)
    (ends : EndsInteger rest) :
    Scans (c :: (gap ++ digits)) rest (Joined (IsToken kind [c]) (IsToken .number digits)) := by
  have inner : Scans (gap ++ digits) rest (IsToken .number digits) := by
    refine ((filler.scans _).append (scans_digits all ends)).mono ?_
    rintro _ ⟨_, own, rfl, isNumber, rfl⟩
    exact isNumber
  exact (scans_mark mark _).append inner

/-! The value of a literal -/

/-- A number in the type that is chosen for it, or any error where none is. -/
theorem narrowest_ofInt? (n : Int) (fault : ConversionError) :
    Narrowest n ((Value.ofInt? n).elim (.error fault) .ok) := by
  unfold Value.ofInt?
  split
  · rename_i narrow
    have same : (Int32.ofInt n).toInt = n := Int32.toInt_ofInt_of_le narrow.1 narrow.2
    exact ⟨fun _ _ => ⟨_, same, rfl⟩, by omega, by omega⟩
  split
  · rename_i wide
    have same : (Int64.ofInt n).toInt = n := Int64.toInt_ofInt_of_le wide.1 wide.2
    exact ⟨by omega, fun _ _ _ => ⟨_, same, rfl⟩, by omega⟩
  · exact ⟨by omega, by omega, fun _ => ⟨fault, rfl⟩⟩

theorem SignText.mem {sign : List Char} {negative : Bool} (signed : SignText sign negative) :
    ∀ c ∈ sign, c = '+' ∨ c = '-' := by
  cases signed <;> simp

/-- No character of a sign and digits makes a number a double. -/
theorem SignText.not_hasMark {sign digits : List Char} {negative : Bool}
    (signed : SignText sign negative) (all : IsDigits digits) : ¬HasMark (sign ++ digits) := by
  rintro ⟨c, member, mark⟩
  rcases List.mem_append.mp member with before | behind
  · rcases signed.mem c before with rfl | rfl <;> simp at mark
  · have digit := all.2 c behind
    rcases mark with rfl | rfl | rfl <;> cases digit

/-- A sign and digits stand for the number that they write. -/
theorem ofLexeme_digits {sign digits : List Char} {negative : Bool}
    (signed : SignText sign negative) (all : IsDigits digits) :
    Value.ofLexeme (String.ofList (sign ++ digits)) =
      (Value.ofInt? (if negative then -(digitsValue digits : Int) else digitsValue digits)).elim
        (.error (.integerTooWide (String.ofList (sign ++ digits)))) .ok := by
  have words : String.ofList (sign ++ digits) ≠ "Infinity" ∧
      String.ofList (sign ++ digits) ≠ "-Infinity" := by
    have writes := NumberText.mk signed all.2 .absent (by simpa using all.1) .absent
    rw [List.append_nil, List.append_nil] at writes
    obtain ⟨positive, negative⟩ := writes.ne_infinity
    refine ⟨fun same => positive ?_, fun same => negative ?_⟩ <;> rw [← same, String.toList_ofList]
  have marks (text : List Char) :
      (text.any fun c => c == '.' || c == 'e' || c == 'E') = true ↔ HasMark text := by
    simp [HasMark, or_assoc]
  have unmarked := (marks _).not.mpr (signed.not_hasMark all)
  simp only [Value.ofLexeme, String.toList_ofList]
  rw [if_neg words.1, if_neg words.2, if_neg unmarked, signed.integer? all, Option.bind_some]
  cases Value.ofInt? _ <;> rfl

theorem narrowest_number {sign digits : List Char} {negative : Bool}
    (signed : SignText sign negative) (all : IsDigits digits) (fresh : Fresh) (span : Span) :
    Narrowest (if negative then -(digitsValue digits : Int) else digitsValue digits)
      (Value.ofExpr fresh (.number span (String.ofList (sign ++ digits)))) := by
  rw [Value.ofExpr, ofLexeme_digits signed all]
  have narrowest := narrowest_ofInt?
    (if negative then -(digitsValue digits : Int) else digitsValue digits)
    ⟨none, .integerTooWide (String.ofList (sign ++ digits))⟩
  generalize Value.ofInt? _ = found at narrowest ⊢
  cases found <;> exact narrowest

/-! Literals in a source -/

/-- A literal is one or two tokens of its own, which are a number whose value is the literal's. -/
theorem IntegerText.scans {text rest : List Char} {n : Int} (writes : IntegerText text n)
    (ends : EndsInteger rest) :
    Scans text rest fun own => ∃ lexeme, IsLiteral lexeme own ∧
      ∀ fresh span, Narrowest n (Value.ofExpr fresh (.number span lexeme)) := by
  cases writes with
  | plain all =>
    refine (scans_digits all ends).mono fun own isNumber => ?_
    exact ⟨_, isLiteral_digits isNumber, narrowest_number .absent all⟩
  | plus filler all =>
    refine (scans_apart rfl filler all ends).mono ?_
    rintro _ ⟨sign, own, isSign, isNumber, rfl⟩
    exact ⟨_, isLiteral_plus isSign isNumber, narrowest_number .absent all⟩
  | minus filler all =>
    refine (scans_apart rfl filler all ends).mono ?_
    rintro _ ⟨sign, own, isSign, isNumber, rfl⟩
    exact ⟨_, isLiteral_minus isSign isNumber, narrowest_number .minus all⟩

theorem Expr.exists_number {e : Expr} {lexeme : String}
    (same : e.eraseSpans = .number nowhere lexeme) : ∃ span, e = .number span lexeme := by
  cases e <;> cases same
  exact ⟨_, rfl⟩

/-- Where a value may start a literal is read as a number, with the same frames around it. -/
theorem IsLiteral.reaches {lexeme : String} {own : List Token} (literal : IsLiteral lexeme own)
    {mode : Mode} (starts : mode = .value ∨ mode = .item) (frames : List Frame) :
    ∃ last span, Mode.Reaches mode frames own last frames ∧
      last.Delivers (.number span lexeme) := by
  have expression := (literal (Token.endAt .start) (by simp [Token.endAt])).expression
  obtain ⟨last, e, run, delivers, same⟩ := expression.read frames
  obtain ⟨span, rfl⟩ := Expr.exists_number same
  exact ⟨last, span, run.expected starts expression.ne_nil, delivers⟩

theorem Filler.endsInteger {gap : List Char} (filler : Filler gap) : EndsInteger gap := by
  have first : ∀ c ∈ gap.head?, c ∈ partings := filler.head_mem
  refine ⟨fun c member => ?_, ?_⟩
  · have parting := first c member
    simp only [partings, List.mem_cons, List.not_mem_nil, or_false] at parting
    rcases parting with rfl | rfl | rfl | rfl | rfl <;> simp [ExponentMark]
  · rintro d more rfl
    exact absurd (first '.' rfl) (by decide)

/-- An integer literal with nothing but blanks and comments around it is a statement, an expression
that is a number whose value is the literal's. -/
theorem IntegerText.statement {text before behind : List Char} {n : Int}
    (writes : IntegerText text n) (front : Filler before) (back : Filler behind) :
    ∃ s e, Statement.ofSource (String.ofList (before ++ (text ++ behind))) = .ok s ∧
      s.kind = .expression e ∧ ∀ fresh, Narrowest n (Value.ofExpr fresh e) := by
  obtain ⟨own, ⟨lexeme, literal, narrowest⟩, scanned⟩ :=
    writes.scans back.endsInteger (Position.start.after before)
  obtain ⟨s, e, read, kind, same⟩ :=
    Statement.ofSource_lone front back scanned fun next ends => literal next (by simp [ends])
  obtain ⟨span, rfl⟩ := Expr.exists_number same
  exact ⟨s, .number span lexeme, read, kind, fun fresh => narrowest fresh span⟩

/-- Integer literals are exact, and of the narrowest type. Wherever a literal stands in a source,
and whatever does not go on with its digits stands behind it, it is scanned into tokens of its own;
where a value may start these are read as one expression; and the value of that expression is the
number that the literal writes, as a 32-bit integer or else as one of 64 bits, or an error. A
literal alone is a statement with this value. -/
theorem IntegerText.exact_and_narrowest {text : List Char} {n : Int} (writes : IntegerText text n) :
    (∀ rest, EndsInteger rest → Scans text rest fun own =>
      ∀ mode, mode = .value ∨ mode = .item → ∀ frames, ∃ last e,
        Mode.Reaches mode frames own last frames ∧ last.Delivers e ∧
          ∀ fresh, Narrowest n (Value.ofExpr fresh e)) ∧
    ∀ before behind, Filler before → Filler behind →
      ∃ s e, Statement.ofSource (String.ofList (before ++ (text ++ behind))) = .ok s ∧
        s.kind = .expression e ∧ ∀ fresh, Narrowest n (Value.ofExpr fresh e) := by
  refine ⟨fun rest ends => (writes.scans ends).mono ?_, fun before behind front back =>
    writes.statement front back⟩
  rintro own ⟨lexeme, literal, narrowest⟩ mode starts frames
  obtain ⟨last, span, run, delivers⟩ := literal.reaches starts frames
  exact ⟨last, _, run, delivers, fun fresh => narrowest fresh span⟩

/-- The least 32-bit integer, with a comment behind its sign and a zero in front. -/
theorem IntegerText.least_narrow :
    ∃ (s : Statement) (e : Expr) (v : Int32), Statement.ofSource "-/*-*/02147483648" = .ok s ∧
      s.kind = .expression e ∧ v.toInt = -2 ^ 31 ∧
      Value.ofExpr (Fresh.ofSeed 0 0) e = .ok (.int32 v) := by
  have opened : ¬['*', '/'] <:+: ['-'] := by decide
  have filler : Filler ['/', '*', '-', '*', '/'] := .block opened .nil
  have digits : IsDigits "02147483648".toList := ⟨by decide, List.all_eq_true.mp (by decide)⟩
  obtain ⟨-, alone⟩ := (IntegerText.minus filler digits).exact_and_narrowest
  obtain ⟨s, e, read, expression, narrowest⟩ := alone [] [] .nil .nil
  obtain ⟨v, same, value⟩ := (narrowest (Fresh.ofSeed 0 0)).narrow (by decide) (by decide)
  exact ⟨s, e, v, read, expression, same, value⟩

end MongoShell
