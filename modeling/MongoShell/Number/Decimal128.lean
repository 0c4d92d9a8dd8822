import MongoShell.Number.Numeral

/-!
Decimal floating-point numbers of 34 digits (IEEE 754 decimal128), and their text.
-/

namespace MongoShell

namespace Decimal128

/-- Coefficients have at most 34 digits. -/
def maxDigits : Nat := 34

def minExponent : Int := -6176

def maxExponent : Int := 6111

end Decimal128

inductive Decimal128 where
  | nan (negative signalling : Bool)
  | infinity (negative : Bool)
  /-- The number `coefficient · 10 ^ exponent`; two ways to write one number are told apart. -/
  | finite (negative : Bool) (coefficient : Nat) (exponent : Int)
deriving DecidableEq, Repr

namespace Decimal128

/-- Exponents are read as 16-bit integers. -/
def exponentInRange (n : Int) : Option Int :=
  if -0x8000 ≤ n ∧ n < 0x8000 then some n else none

/-- The first `count` digits, if those that are dropped are all zeros. -/
def dropZeros? (count : Nat) (digits : List Char) : Option (List Char) :=
  if (digits.drop count).all (· == '0') then some (digits.take count) else none

/-- Digits without zeros in front. Where none are left the number is zero, written by one zero,
whether there were any zeros or no digits at all. -/
def stripZeros (digits : List Char) : List Char :=
  let rest := digits.dropWhile (· == '0')
  if rest = [] then ['0'] else rest

/-- Digits and their exponent, cut to 34 digits. -/
def fitDigits? (digits : List Char) (exponent : Int) : Option (List Char × Int) :=
  if digits.length ≤ maxDigits then some (digits, exponent)
  else do
    let kept ← dropZeros? maxDigits digits
    let dropped ← exponentInRange (digits.length - maxDigits)
    let exponent ← exponentInRange (exponent + dropped)
    some (kept, exponent)

/-- Digits and their exponent, with the exponent raised to the least one by dropping zeros, or
lowered to the greatest one by adding zeros. Zero takes any exponent. -/
def fitExponent? (digits : List Char) (exponent : Int) : Option (List Char × Int) :=
  if exponent < minExponent then
    if digits = ['0'] then some (digits, minExponent)
    else
      let surplus := (minExponent - exponent).toNat
      if surplus ≤ digits.length then
        (dropZeros? (digits.length - surplus) digits).map (·, minExponent)
      else none
  else if maxExponent < exponent then
    if digits = ['0'] then some (digits, maxExponent)
    else
      let missing := (exponent - maxExponent).toNat
      if digits.length + missing ≤ maxDigits then
        some (digits ++ List.replicate missing '0', maxExponent)
      else none
  else some (digits, exponent)

/-- A coefficient: digits, with a plus sign allowed in front. -/
def coefficient? : List Char → Option Nat
  | '+' :: digits => natural? digits
  | digits => natural? digits

/-- Cut a text at the first occurrence of a character, which is dropped. -/
def splitAt? (c : Char) (text : List Char) : Option (List Char × List Char) :=
  match text.dropWhile (· != c) with
  | [] => none
  | _ :: behind => some (text.takeWhile (· != c), behind)

/-- The coefficient and exponent of a finite number, its sign taken off. -/
def ofFiniteText? (text : List Char) : Option (Nat × Int) := do
  let (mantissa, exponent) ← match splitAt? 'e' text with
    | none => some (text, 0)
    | some (mantissa, power) => ((integer? power).bind exponentInRange).map (mantissa, ·)
  let (digits, exponent) ← match splitAt? '.' mantissa with
    | none => some (mantissa, exponent)
    | some (whole, fraction) => do
      let places ← exponentInRange fraction.length
      let exponent ← exponentInRange (exponent - places)
      some (whole ++ fraction, exponent)
  let (digits, exponent) ← fitDigits? (stripZeros digits) exponent
  let (digits, exponent) ← fitExponent? digits exponent
  let coefficient ← coefficient? digits
  some (coefficient, exponent)

/-- The number that a text writes: a decimal numeral, or a word for infinity or NaN in letters of
either case, with at most one sign in front. No digit other than zero is ever dropped; a numeral
may lack its digits, a sign alone and the empty text included, and is zero then. -/
def ofText? (text : List Char) : Option Decimal128 :=
  let (negative, body) := splitSign text
  let word := body.map Char.toLower
  if word = "nan".toList then some (.nan negative false)
  else if word = "snan".toList then some (.nan negative true)
  else if word = "inf".toList ∨ word = "infinity".toList then some (.infinity negative)
  else (ofFiniteText? word).map fun (coefficient, exponent) => .finite negative coefficient exponent

/-- Digits with a point so that the last `count` of them stand behind it. -/
def placePoint (digits : List Char) (count : Nat) : List Char :=
  if count = 0 then digits
  else if digits.length ≤ count then
    ['0', '.'] ++ List.replicate (count - digits.length) '0' ++ digits
  else digits.take (digits.length - count) ++ '.' :: digits.drop (digits.length - count)

/-- The text of a finite number without its sign. Scientific form is used for exponents above zero
and for numbers below a millionth. -/
def finiteText (coefficient : Nat) (exponent : Int) : List Char :=
  let digits := Nat.toDigits 10 coefficient
  let adjusted := exponent + digits.length - 1
  if exponent ≤ 0 ∧ -6 ≤ adjusted then placePoint digits exponent.natAbs
  else
    let fraction := digits.drop 1
    digits.take 1 ++ (if fraction = [] then [] else '.' :: fraction) ++ ['E']
      ++ (if 0 < adjusted then ['+'] else if adjusted < 0 then ['-'] else [])
      ++ Nat.toDigits 10 adjusted.natAbs

/-- The text of a number; a NaN shows neither its sign nor whether it signals. -/
def text : Decimal128 → String
  | nan _ _ => "NaN"
  | infinity negative => if negative then "-Infinity" else "Infinity"
  | finite negative coefficient exponent =>
    String.ofList ((if negative then ['-'] else []) ++ finiteText coefficient exponent)

end Decimal128

end MongoShell
