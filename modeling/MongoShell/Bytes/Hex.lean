/-!
Hexadecimal digits, and bytes written as two of them each.
-/

namespace MongoShell

/-- The value of a hexadecimal digit of either case. -/
def hexDigit? (c : Char) : Option Nat :=
  if '0' ≤ c ∧ c ≤ '9' then some (c.toNat - '0'.toNat)
  else if 'a' ≤ c ∧ c ≤ 'f' then some (c.toNat - 'a'.toNat + 10)
  else if 'A' ≤ c ∧ c ≤ 'F' then some (c.toNat - 'A'.toNat + 10)
  else none

/-- The digit of a value below 16, in lower case. -/
def hexDigit (value : Nat) : Char :=
  if value < 10 then Char.ofNat ('0'.toNat + value) else Char.ofNat ('a'.toNat + value - 10)

theorem hexDigit?_hexDigit {value : Nat} (small : value < 16) :
    hexDigit? (hexDigit value) = some value := by
  have all : ∀ n < 16, hexDigit? (hexDigit n) = some n := by decide
  exact all value small

/-- The number that hexadecimal digits write, the most significant first. -/
def hexValue? (digits : List Char) : Option Nat :=
  digits.foldlM (fun value c => (hexDigit? c).map (value * 16 + ·)) 0

/-- The bytes that pairs of hexadecimal digits write. -/
def hexBytes? : List Char → Option (List UInt8)
  | [] => some []
  | [_] => none
  | c :: d :: text =>
    match hexDigit? c, hexDigit? d with
    | some high, some low => (hexBytes? text).map (UInt8.ofNat (16 * high + low) :: ·)
    | _, _ => none

/-- Bytes in lower-case hexadecimal digits. -/
def hexText : List UInt8 → List Char
  | [] => []
  | byte :: bytes => hexDigit (byte.toNat / 16) :: hexDigit (byte.toNat % 16) :: hexText bytes

theorem hexBytes?_hexText (bytes : List UInt8) : hexBytes? (hexText bytes) = some bytes := by
  induction bytes with
  | nil => rfl
  | cons byte bytes ih =>
    have bound := byte.toNat_lt
    have whole : 16 * (byte.toNat / 16) + byte.toNat % 16 = byte.toNat := by omega
    simp only [hexText, hexBytes?, hexDigit?_hexDigit (by omega : byte.toNat / 16 < 16),
      hexDigit?_hexDigit (Nat.mod_lt _ (by decide : 0 < 16)), ih, Option.map_some, whole,
      UInt8.ofNat_toNat]

end MongoShell
