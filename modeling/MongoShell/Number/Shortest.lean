import MongoShell.Number.Double

/-!
The shortest decimal text of a double: the fewest digits that read back as the same double, and of
those the ones nearest to it.
-/

namespace MongoShell

namespace Double

/-- Whether `10 ^ exponent ≤ numerator / denominator`. -/
def reachesPowerOfTen (numerator denominator : Nat) (exponent : Int) : Bool :=
  denominator * Nat.pow 10 exponent.toNat ≤ numerator * Nat.pow 10 (-exponent).toNat

/-- The exponent of the greatest power of ten that a positive quotient reaches. The binary exponent
gives it to within one, 1233/4096 being the logarithm of two. -/
def decimalExponent (numerator denominator : Nat) : Int :=
  let guess := (binaryExponent numerator denominator * 1233) / 4096
  if reachesPowerOfTen numerator denominator (guess + 1) then guess + 1
  else if reachesPowerOfTen numerator denominator guess then guess
  else guess - 1

/-- Whether a decimal number reads back as this double, signs apart. -/
def readsBack (d : Double) (decimal : Decimal) : Bool :=
  (ofDecimal d.negative decimal).magnitude == d.magnitude

/-- A decimal number with the given count of digits that reads back as the double: the nearer of the
two around it if both do, and of two equally near ones the even one. -/
def nearestWithDigits? (d : Double) (count : Nat) : Option Decimal :=
  let exponent := decimalExponent d.numerator d.denominator - count + 1
  let dividend := d.numerator * Nat.pow 10 (-exponent).toNat
  let divisor := d.denominator * Nat.pow 10 exponent.toNat
  let below : Decimal := ⟨dividend / divisor, exponent⟩
  let above : Decimal := ⟨dividend / divisor + 1, exponent⟩
  match d.readsBack below, d.readsBack above with
  | true, true => some (if roundQuotient dividend divisor = below.coefficient then below else above)
  | true, false => some below
  | false, true => some above
  | false, false => none

/-- All digits of a double; a power of two always is a decimal fraction. -/
def exactDecimal (d : Double) : Decimal :=
  ⟨d.numerator * Nat.pow 5 (-d.scale).toNat, min d.scale 0⟩

/-- The shortest decimal number that reads back as a finite double other than zero. -/
def shortestDecimal (d : Double) : Decimal :=
  ((List.range 17).findSome? fun count => d.nearestWithDigits? (count + 1)).getD d.exactDecimal

/-- The digits of a number without the zeros at its end. -/
def leadingDigits (coefficient : Nat) : List Char :=
  ((Nat.toDigits 10 coefficient).reverse.dropWhile (· == '0')).reverse

/-- Digits written with the point behind the first `count + 1` of them, and with at least one digit
behind the point. -/
def placePoint (digits : List Char) (count : Nat) : List Char :=
  let whole := digits.take (count + 1)
  let fraction := digits.drop (count + 1)
  whole ++ List.replicate (count + 1 - whole.length) '0' ++ ['.']
    ++ (if fraction = [] then ['0'] else fraction)

/-- The text of digits whose first stands for `10 ^ exponent`. Exponents from -5 through 15 are
written with a point alone, all others in scientific form. -/
def layOut (digits : List Char) (exponent : Int) : List Char :=
  if -5 ≤ exponent ∧ exponent ≤ 15 then
    if 0 ≤ exponent then placePoint digits exponent.toNat
    else ['0', '.'] ++ List.replicate (-exponent - 1).toNat '0' ++ digits
  else
    let fraction := digits.drop 1
    digits.take 1 ++ (if fraction = [] then [] else '.' :: fraction)
      ++ (if exponent < 0 then ['e', '-'] else ['e', '+']) ++ Nat.toDigits 10 exponent.natAbs

/-- The text of a finite double. -/
def text (d : Double) : String :=
  let body :=
    if d.isZero then ['0', '.', '0']
    else
      let decimal := d.shortestDecimal
      let digits := Nat.toDigits 10 decimal.coefficient
      layOut (leadingDigits decimal.coefficient) (digits.length + decimal.exponent - 1)
  String.ofList (if d.negative then '-' :: body else body)

end Double

end MongoShell
