import MongoShell.Proofs.Number.Whole
import MongoShell.Value.OfExpr

/-! The numbers that texts write, and the whole numbers that they are read as. A text of digits
alone is read as the number itself, if it is in range. One with a point or a power of ten is read as
the number of the nearest double. -/

namespace MongoShell

/-! Texts of numbers -/

/-- A sign, and whether it makes a number negative. -/
inductive SignText : List Char → Bool → Prop
  | absent : SignText [] false
  | plus : SignText ['+'] false
  | minus : SignText ['-'] true

/-- What may stand behind the digits before the point, and the digits behind the point. -/
inductive PointText : List Char → List Char → Prop
  | absent : PointText [] []
  | point {digits : List Char} (all : ∀ c ∈ digits, c.isDigit = true) :
      PointText ('.' :: digits) digits

/-- What may stand behind all these digits, and the power of ten that it writes. -/
inductive PowerText : List Char → Int → Prop
  | absent : PowerText [] 0
  | power {mark : Char} {sign digits : List Char} {negative : Bool}
      (letter : mark = 'e' ∨ mark = 'E') (signed : SignText sign negative)
      (all : IsDigits digits) :
      PowerText (mark :: (sign ++ digits))
        (if negative then -(digitsValue digits : Int) else digitsValue digits)

/-- The text of a number: a sign, digits on at least one side of a point, and a power of ten, of
which all but the digits may be missing. -/
inductive NumberText : List Char → ℚ → Prop
  | mk {sign whole point digits power : List Char} {negative : Bool} {exponent : Int}
      (signed : SignText sign negative) (wholeDigits : ∀ c ∈ whole, c.isDigit = true)
      (pointed : PointText point digits) (some : whole ++ digits ≠ [])
      (scaled : PowerText power exponent) :
      NumberText (sign ++ (whole ++ (point ++ power)))
        (Double.signed negative (digitsValue (whole ++ digits) * 10 ^ (exponent - digits.length)))

/-- A text has a point or a power of ten. -/
def HasMark (text : List Char) : Prop := ∃ c ∈ text, c = '.' ∨ c = 'e' ∨ c = 'E'

instance (text : List Char) : Decidable (HasMark text) :=
  List.decidableBEx (fun c => c = '.' ∨ c = 'e' ∨ c = 'E') text

/-! Reading -/

theorem PowerText.head {power : List Char} {exponent : Int} (scaled : PowerText power exponent) :
    ∀ c ∈ power.head?, c = 'e' ∨ c = 'E' := by
  cases scaled with
  | absent => exact nofun
  | power letter signed all =>
    rintro c ⟨⟩
    exact letter

/-- The sign is split off a text that starts with none. -/
theorem SignText.splitSign {sign : List Char} {negative : Bool} (signed : SignText sign negative)
    {body : List Char} (unsigned : ∀ c ∈ body.head?, c ≠ '+' ∧ c ≠ '-') :
    MongoShell.splitSign (sign ++ body) = (negative, body) := by
  cases signed with
  | plus => rfl
  | minus => rfl
  | absent =>
    rw [List.nil_append, MongoShell.splitSign.eq_def]
    split
    · exact absurd rfl (unsigned '-' rfl).2
    · exact absurd rfl (unsigned '+' rfl).1
    · rfl

theorem ne_sign_of_isDigit {c : Char} (digit : c.isDigit = true) : c ≠ '+' ∧ c ≠ '-' := by
  constructor <;> rintro rfl <;> cases digit

theorem SignText.integer? {sign digits : List Char} {negative : Bool}
    (signed : SignText sign negative) (all : IsDigits digits) :
    MongoShell.integer? (sign ++ digits) =
      some (if negative then -(digitsValue digits : Int) else digitsValue digits) := by
  have unsigned : ∀ c ∈ digits.head?, c ≠ '+' ∧ c ≠ '-' := by
    obtain ⟨c, rest, rfl, digit⟩ := all.exists_cons
    rintro d ⟨⟩
    exact ne_sign_of_isDigit digit
  rw [MongoShell.integer?, signed.splitSign unsigned]
  simp only [natural?_of_isDigits all]
  rfl

theorem PowerText.powerOfTen? {power : List Char} {exponent : Int}
    (scaled : PowerText power exponent) : MongoShell.powerOfTen? power = some exponent := by
  cases scaled with
  | absent => rfl
  | power letter signed all =>
    rw [MongoShell.powerOfTen?, if_pos letter]
    exact signed.integer? all

theorem PointText.fractionDigits {point digits power : List Char}
    (pointed : PointText point digits) (behind : ∀ c ∈ power.head?, c = 'e' ∨ c = 'E') :
    MongoShell.fractionDigits (point ++ power) = (digits, power) := by
  have stop : ∀ c ∈ power.head?, c.isDigit = false := by
    intro c member
    rcases behind c member with rfl | rfl <;> rfl
  cases pointed with
  | absent =>
    rw [List.nil_append, MongoShell.fractionDigits.eq_def]
    split
    · exact absurd (behind '.' rfl) (by decide)
    · rfl
  | point all =>
    rw [List.cons_append, MongoShell.fractionDigits, takeWhile_stop all stop,
      dropWhile_stop all stop]

/-- The text of a number splits into its sign and a decimal, which has its absolute value. -/
theorem NumberText.exists_decimal {text : List Char} {v : ℚ} (writes : NumberText text v) :
    ∃ negative body decimal, splitSign text = (negative, body) ∧
      Decimal.ofText? body = some decimal ∧ v = Double.signed negative decimal.value ∧
      ∃ c rest, body = c :: rest ∧ (c.isDigit = true ∨ c = '.') := by
  obtain @⟨sign, whole, point, digits, power, negative, exponent, signed, wholeDigits, pointed,
    some, scaled⟩ := writes
  have first : ∃ c rest, whole ++ (point ++ power) = c :: rest ∧ (c.isDigit = true ∨ c = '.') := by
    cases whole with
    | cons c rest => exact ⟨c, _, rfl, .inl (wholeDigits c List.mem_cons_self)⟩
    | nil =>
      cases pointed with
      | absent => exact absurd rfl some
      | point all => exact ⟨'.', _, rfl, .inr rfl⟩
  have unsigned : ∀ c ∈ (whole ++ (point ++ power)).head?, c ≠ '+' ∧ c ≠ '-' := by
    obtain ⟨c, rest, shown, digit | rfl⟩ := first
    · rw [shown]
      rintro d ⟨⟩
      exact ne_sign_of_isDigit digit
    · rw [shown]
      rintro d ⟨⟩
      decide
  have stop : ∀ c ∈ (point ++ power).head?, c.isDigit = false := by
    intro c member
    cases pointed with
    | absent => rcases scaled.head c member with rfl | rfl <;> rfl
    | point all =>
      cases member
      rfl
  refine ⟨negative, _, ⟨digitsValue (whole ++ digits), exponent - digits.length⟩,
    signed.splitSign unsigned, ?_, rfl, first⟩
  rw [Decimal.ofText?, takeWhile_stop wholeDigits stop, dropWhile_stop wholeDigits stop,
    pointed.fractionDigits scaled.head]
  simp only [if_neg some, scaled.powerOfTen?, Option.map_some]

namespace NumberText

variable {text : List Char} {v : ℚ} (writes : NumberText text v)

include writes

/-- The text of a number reads as a double rounded from the number. -/
theorem exists_ofText? :
    ∃ negative decimal, Double.ofText? text = some (Double.ofDecimal negative decimal) ∧
      v = Double.signed negative decimal.value := by
  obtain ⟨negative, body, decimal, split, read, value, c, rest, shown, first⟩ :=
    writes.exists_decimal
  have word (d : Char) (letters : List Char) (letter : d.isDigit = false ∧ d ≠ '.') :
      body.map Char.toLower ≠ d :: letters := by
    rw [shown, List.map_cons]
    intro same
    obtain ⟨rfl, -⟩ := List.cons.inj same
    rcases first with digit | rfl
    · rw [Double.toLower_of_isDigit digit, digit] at letter
      cases letter.1
    · exact letter.2 rfl
  have infinite : ¬(body.map Char.toLower = "inf".toList ∨
      body.map Char.toLower = "infinity".toList) :=
    not_or.mpr ⟨word 'i' ['n', 'f'] (by decide),
      word 'i' ['n', 'f', 'i', 'n', 'i', 't', 'y'] (by decide)⟩
  have undefined : body.map Char.toLower ≠ "nan".toList := word 'n' ['a', 'n'] (by decide)
  refine ⟨negative, decimal, ?_, value⟩
  rw [Double.ofText?, split]
  simp only [infinite, undefined, if_false, read, Option.map_some]

/-- The text of a number is none of the words for infinity. -/
theorem ne_infinity : text ≠ "Infinity".toList ∧ text ≠ "-Infinity".toList := by
  obtain ⟨negative, body, decimal, split, -, -, c, rest, rfl, first⟩ := writes.exists_decimal
  have letter : ¬('I'.isDigit = true ∨ 'I' = '.') := by decide
  constructor
  · rintro rfl
    cases split
    exact letter first
  · rintro rfl
    cases split
    exact letter first

/-- Without a mark the text is digits with a sign, and the number is whole. -/
theorem exists_integer? (unmarked : ¬HasMark text) : ∃ n : Int, integer? text = some n ∧ v = n := by
  obtain @⟨sign, whole, point, digits, power, negative, exponent, signed, wholeDigits, pointed,
    some, scaled⟩ := writes
  have noMark {c : Char} (mark : c = '.' ∨ c = 'e' ∨ c = 'E') : c ∉ point ++ power := fun member =>
    unmarked ⟨c, List.mem_append_right _ (List.mem_append_right _ member), mark⟩
  cases pointed with
  | point all => exact absurd List.mem_cons_self (noMark (.inl rfl))
  | absent =>
    cases scaled with
    | power letter signed all => exact absurd List.mem_cons_self (noMark (.inr letter))
    | absent =>
      rw [List.append_nil] at some
      refine ⟨_, by simpa using signed.integer? ⟨some, wholeDigits⟩, ?_⟩
      cases negative <;> simp [Double.signed]

end NumberText

/-! Values of number texts -/

theorem Value.integer?_ofInt? {m n : Int} :
    (∃ value, ofInt? m = some value ∧ value.integer? = some n) ↔
      m = n ∧ -2 ^ 63 ≤ n ∧ n < 2 ^ 63 := by
  unfold ofInt?
  split
  · rename_i narrow
    have same : (Int32.ofInt m).toInt = m := Int32.toInt_ofInt_of_le narrow.1 narrow.2
    simp only [Option.some.injEq, exists_eq_left', Value.integer?, same]
    constructor
    · rintro rfl
      exact ⟨rfl, by omega, by omega⟩
    · exact And.left
  split
  · rename_i wide
    have same : (Int64.ofInt m).toInt = m := Int64.toInt_ofInt_of_le wide.1 wide.2
    simp only [Option.some.injEq, exists_eq_left', Value.integer?, same]
    exact ⟨fun shown => shown ▸ ⟨rfl, wide⟩, And.left⟩
  · rename_i none
    refine ⟨nofun, ?_⟩
    rintro ⟨rfl, range⟩
    exact absurd range none

/-- The whole number that a text is taken for. Without a mark it is the number that the text writes,
in 64 bits; else it is the number of the nearest double, in 53. -/
def TakenFor (text : List Char) (v : ℚ) (n : Int) : Prop :=
  if HasMark text then |n| < 2 ^ 53 ∧ ∃ near : Double, near.Nearest v ∧ near.value = n
  else v = n ∧ -2 ^ 63 ≤ n ∧ n < 2 ^ 63

theorem NumberText.integer?_ofLexeme {lexeme : String} {v : ℚ}
    (writes : NumberText lexeme.toList v) (n : Int) :
    (∃ value, Value.ofLexeme lexeme = .ok value ∧ value.integer? = some n) ↔
      TakenFor lexeme.toList v n := by
  have words : lexeme ≠ "Infinity" ∧ lexeme ≠ "-Infinity" := by
    obtain ⟨positive, negative⟩ := writes.ne_infinity
    exact ⟨fun same => positive (same ▸ rfl), fun same => negative (same ▸ rfl)⟩
  have marks : (lexeme.toList.any fun c => c == '.' || c == 'e' || c == 'E') = true ↔
      HasMark lexeme.toList := by
    simp [HasMark, or_assoc]
  unfold Value.ofLexeme
  simp only [if_neg words.1, if_neg words.2, marks, TakenFor]
  split
  · obtain ⟨negative, decimal, read, rfl⟩ := writes.exists_ofText?
    rw [read, ← Double.integer?_ofDecimal]
    simp [Value.integer?]
  · rename_i unmarked
    obtain ⟨m, read, rfl⟩ := writes.exists_integer? unmarked
    rw [read, Int.cast_inj, ← Value.integer?_ofInt?]
    cases narrowest : Value.ofInt? m <;> simp [narrowest]

end MongoShell
