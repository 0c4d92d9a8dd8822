import MongoShell.Number.Numeral

/-!
Double-precision numbers of IEEE 754 as exact data: a sign and a 63-bit magnitude, whose upper 11
bits are the exponent field and whose lower 52 bits are the fraction field. Magnitudes are ordered
like the numbers they stand for: finite ones first, then infinity, then the NaNs.
-/

namespace MongoShell

namespace Double

/-- How many magnitudes have one exponent field. -/
def binade : Nat := 0x10000000000000

/-- The magnitude of infinity, the first one with the greatest exponent field. -/
def infiniteMagnitude : Nat := 0x7FF0000000000000

/-- The magnitude of the quiet NaN without a payload. -/
def quietMagnitude : Nat := 0x7FF8000000000000

end Double

structure Double where
  negative : Bool
  magnitude : Fin 0x8000000000000000
deriving DecidableEq, Repr

namespace Double

def zero : Double := ⟨false, 0⟩

def infinity (negative : Bool) : Double := ⟨negative, ⟨infiniteMagnitude, by decide⟩⟩

def nan (negative : Bool) : Double := ⟨negative, ⟨quietMagnitude, by decide⟩⟩

def isFinite (d : Double) : Bool := d.magnitude < infiniteMagnitude

def isNaN (d : Double) : Bool := infiniteMagnitude < d.magnitude

def isZero (d : Double) : Bool := d.magnitude.val == 0

/-- Equality of numbers: zeros of either sign are equal, and a NaN equals nothing. -/
def sameNumber (a b : Double) : Bool := !a.isNaN && !b.isNaN && (a == b || (a.isZero && b.isZero))

/-- The 64-bit pattern. -/
def toBits (d : Double) : Nat := (if d.negative then 0x8000000000000000 else 0) + d.magnitude

def exponentField (d : Double) : Nat := d.magnitude / binade

def fractionField (d : Double) : Nat := d.magnitude % binade

/-- The whole number that a finite magnitude is a power of two times. -/
def significand (d : Double) : Nat :=
  if d.exponentField = 0 then d.fractionField else binade + d.fractionField

/-- The exponent of that power of two. -/
def scale (d : Double) : Int := max d.exponentField 1 - 1075

/-- The magnitude is this whole number divided by `denominator`. -/
def numerator (d : Double) : Nat := d.significand <<< d.scale.toNat

def denominator (d : Double) : Nat := 1 <<< (-d.scale).toNat

/-- The whole number that a double holds, if it holds one of at most 53 bits. -/
def integer? (d : Double) : Option Int :=
  let whole := d.numerator / d.denominator
  if d.isFinite ∧ d.numerator % d.denominator = 0 ∧ whole < 2 * binade then
    some (if d.negative then -(whole : Int) else whole)
  else none

/-! Rounding -/

/-- The quotient rounded to the nearest whole number, a half to the even one. -/
def roundQuotient (numerator denominator : Nat) : Nat :=
  let below := numerator / denominator
  let twice := 2 * (numerator % denominator)
  if twice < denominator ∨ (twice = denominator ∧ below % 2 = 0) then below else below + 1

/-- Whether `2 ^ exponent ≤ numerator / denominator`. -/
def reachesPower (numerator denominator : Nat) (exponent : Int) : Bool :=
  denominator <<< exponent.toNat ≤ numerator <<< (-exponent).toNat

/-- The exponent of the greatest power of two that a positive quotient reaches. -/
def binaryExponent (numerator denominator : Nat) : Int :=
  let guess : Int := (numerator.log2 : Int) - denominator.log2
  if reachesPower numerator denominator guess then guess else guess - 1

/-- The double nearest to a quotient, a tie going to the even significand and whatever is too large
to infinity. -/
def ofQuotient (negative : Bool) (numerator denominator : Nat) : Double :=
  let scale := max (binaryExponent numerator denominator - 52) (-1074)
  let significand := roundQuotient (numerator <<< (-scale).toNat) (denominator <<< scale.toNat)
  let magnitude := (scale + 1074).toNat * binade + significand
  if finite : magnitude < infiniteMagnitude then
    ⟨negative, ⟨magnitude, Nat.lt_trans finite (by decide)⟩⟩
  else infinity negative

/-- The double nearest to a decimal number. Numbers of more than 310 digits before the point are
infinite, and those with 330 zeros behind it are zero, whatever their other digits. -/
def ofDecimal (negative : Bool) (d : Decimal) : Double :=
  let top : Int := (Nat.toDigits 10 d.coefficient).length + d.exponent
  if d.coefficient = 0 ∨ top < -330 then ⟨negative, 0⟩
  else if 310 < top then infinity negative
  else
    ofQuotient negative (d.coefficient * Nat.pow 10 d.exponent.toNat)
      (Nat.pow 10 (-d.exponent).toNat)

/-- The double that a text writes: a decimal numeral, or a word for infinity or NaN in letters of
either case, with at most one sign in front. -/
def ofText? (text : List Char) : Option Double :=
  let (negative, body) := splitSign text
  let word := body.map Char.toLower
  if word = "inf".toList ∨ word = "infinity".toList then some (infinity negative)
  else if word = "nan".toList then some (nan negative)
  else (Decimal.ofText? body).map (ofDecimal negative)

end Double

end MongoShell
