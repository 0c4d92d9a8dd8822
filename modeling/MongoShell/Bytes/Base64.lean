/-!
Base64 with the standard alphabet: three bytes in four characters, the last group filled up with
equals signs. Only the one padded form of a byte string is read.
-/

namespace MongoShell

/-- The character of a value below 64. -/
def base64Digit (value : Nat) : Char :=
  if value < 26 then Char.ofNat ('A'.toNat + value)
  else if value < 52 then Char.ofNat ('a'.toNat + value - 26)
  else if value < 62 then Char.ofNat ('0'.toNat + value - 52)
  else if value = 62 then '+'
  else '/'

def base64Digit? (c : Char) : Option Nat :=
  if 'A' ≤ c ∧ c ≤ 'Z' then some (c.toNat - 'A'.toNat)
  else if 'a' ≤ c ∧ c ≤ 'z' then some (c.toNat - 'a'.toNat + 26)
  else if '0' ≤ c ∧ c ≤ '9' then some (c.toNat - '0'.toNat + 52)
  else if c = '+' then some 62
  else if c = '/' then some 63
  else none

theorem base64Digit?_base64Digit {value : Nat} (small : value < 64) :
    base64Digit? (base64Digit value) = some value := by
  have all : ∀ n < 64, base64Digit? (base64Digit n) = some n := by decide
  exact all value small

/-- Bytes in Base64. -/
def base64Text : List UInt8 → List Char
  | [] => []
  | [a] => [base64Digit (a.toNat / 4), base64Digit (a.toNat % 4 * 16), '=', '=']
  | [a, b] =>
    [base64Digit (a.toNat / 4), base64Digit (a.toNat % 4 * 16 + b.toNat / 16),
      base64Digit (b.toNat % 16 * 4), '=']
  | a :: b :: c :: bytes =>
    base64Digit (a.toNat / 4) :: base64Digit (a.toNat % 4 * 16 + b.toNat / 16)
      :: base64Digit (b.toNat % 16 * 4 + c.toNat / 64) :: base64Digit (c.toNat % 64)
      :: base64Text bytes

/-- The bytes of a last group that ends in an equals sign; `c` may be one too. The bits that no byte
takes have to be zero. -/
def base64LastGroup? (a b c : Char) : Option (List UInt8) :=
  match base64Digit? a, base64Digit? b with
  | some a, some b =>
    if c = '=' then if b % 16 = 0 then some [UInt8.ofNat (a * 4 + b / 16)] else none
    else
      match base64Digit? c with
      | some c =>
        if c % 4 = 0 then
          some [UInt8.ofNat (a * 4 + b / 16), UInt8.ofNat (b % 16 * 16 + c / 4)]
        else none
      | none => none
  | _, _ => none

/-- The bytes of a full group. -/
def base64Group? (a b c d : Char) : Option (List UInt8) :=
  match base64Digit? a, base64Digit? b, base64Digit? c, base64Digit? d with
  | some a, some b, some c, some d =>
    some [UInt8.ofNat (a * 4 + b / 16), UInt8.ofNat (b % 16 * 16 + c / 4),
      UInt8.ofNat (c % 4 * 64 + d)]
  | _, _, _, _ => none

/-- The bytes that a text writes in Base64. -/
def base64Bytes? : List Char → Option (List UInt8)
  | [] => some []
  | a :: b :: c :: d :: text =>
    if d = '=' ∧ text = [] then base64LastGroup? a b c
    else
      match base64Group? a b c d, base64Bytes? text with
      | some group, some bytes => some (group ++ bytes)
      | _, _ => none
  | _ => none

end MongoShell
