/-!
Numerals: whole numbers and decimal fractions written with ASCII digits.
-/

namespace MongoShell

/-- The number that digits write, the most significant first. -/
def digitsValue (digits : List Char) : Nat :=
  digits.foldl (fun value c => value * 10 + (c.toNat - '0'.toNat)) 0

theorem digitsValue_append_singleton (digits : List Char) (c : Char) :
    digitsValue (digits ++ [c]) = digitsValue digits * 10 + (c.toNat - '0'.toNat) := by
  simp [digitsValue, List.foldl_append]

/-- The number written by a text that is digits only and not empty. -/
def natural? (text : List Char) : Option Nat :=
  if text ≠ [] ∧ text.all Char.isDigit then some (digitsValue text) else none

/-- Whether a text starts with a minus sign, and the text without one leading sign. -/
def splitSign : List Char → Bool × List Char
  | '-' :: text => (true, text)
  | '+' :: text => (false, text)
  | text => (false, text)

/-- The whole number written by digits with at most one sign in front. -/
def integer? (text : List Char) : Option Int :=
  let (negative, digits) := splitSign text
  (natural? digits).map fun n => if negative then -(n : Int) else n

/-- The number `coefficient · 10 ^ exponent`. -/
structure Decimal where
  coefficient : Nat
  exponent : Int
deriving DecidableEq, Repr

/-- The power of ten that the end of a decimal numeral writes: nothing, or `e`, a sign if need be,
and digits. -/
def powerOfTen? : List Char → Option Int
  | [] => some 0
  | c :: text => if c = 'e' ∨ c = 'E' then integer? text else none

/-- The digits behind a point, and what follows them; without a point there are none. -/
def fractionDigits : List Char → List Char × List Char
  | '.' :: text => (text.takeWhile Char.isDigit, text.dropWhile Char.isDigit)
  | text => ([], text)

/-- The number written by digits, a point and digits, and a power of ten. The point and either of
its sides may be missing, but not all digits. -/
def Decimal.ofText? (text : List Char) : Option Decimal :=
  let whole := text.takeWhile Char.isDigit
  let (fraction, behind) := fractionDigits (text.dropWhile Char.isDigit)
  if whole ++ fraction = [] then none
  else
    (powerOfTen? behind).map fun power =>
      ⟨digitsValue (whole ++ fraction), power - fraction.length⟩

end MongoShell
