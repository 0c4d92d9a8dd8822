import MongoShell.Bytes.Base64
import MongoShell.Bytes.Uuid

/-! Bytes read back from their texts: from Base64, from hexadecimal digits in letters of either
case, and from those digits in the groups of a UUID. -/

namespace MongoShell

/-! Hexadecimal digits -/

/-- The case of a letter does not change the digit that it is. -/
theorem hexDigit?_toLower (c : Char) : hexDigit? c.toLower = hexDigit? c := by
  by_cases upper : c.val ≥ 'A'.val ∧ c.val ≤ 'Z'.val
  · have all : ∀ n < 26,
        hexDigit? (Char.ofNat (65 + n)).toLower = hexDigit? (Char.ofNat (65 + n)) := by
      decide
    have least : 65 ≤ c.toNat := upper.1
    have most : c.toNat ≤ 90 := upper.2
    have same := all (c.toNat - 65) (by omega)
    rwa [Nat.add_sub_cancel' least, Char.ofNat_toNat] at same
  · have same : c.toLower = c := dif_neg upper
    rw [same]

theorem hexBytes?_map_toLower (text : List Char) :
    hexBytes? (text.map Char.toLower) = hexBytes? text := by
  induction text using hexBytes?.induct with
  | case1 => rfl
  | case2 c => rfl
  | case3 c d text high low isHigh isLow ih =>
    simp only [List.map_cons, hexBytes?, hexDigit?_toLower, ih]
  | case4 c d text none =>
    simp only [List.map_cons, hexBytes?, hexDigit?_toLower]

/-- Digits of bytes, in letters of either case. -/
def IsHex (bytes : List UInt8) (digits : List Char) : Prop :=
  digits.map Char.toLower = hexText bytes

theorem length_hexText (bytes : List UInt8) : (hexText bytes).length = 2 * bytes.length := by
  induction bytes with
  | nil => rfl
  | cons byte bytes ih =>
    simp only [hexText, List.length_cons, ih]
    omega

namespace IsHex

variable {bytes : List UInt8} {digits : List Char} (is : IsHex bytes digits)

include is

theorem hexBytes?_eq : hexBytes? digits = some bytes := by
  rw [← hexBytes?_map_toLower, is, hexBytes?_hexText]

theorem length_eq : digits.length = 2 * bytes.length := by
  rw [← length_hexText, ← is, List.length_map]

end IsHex

/-! Groups -/

/-- Digits in groups of 8, 4, 4, 4 and all the others, parted by hyphens. -/
def hyphenated (digits : List Char) : List Char :=
  digits.take 8 ++ '-' :: ((digits.drop 8).take 4 ++ '-' :: ((digits.drop 12).take 4 ++ '-' ::
    ((digits.drop 16).take 4 ++ '-' :: digits.drop 20)))

theorem length_hyphenated {digits : List Char} (size : digits.length = 32) :
    (hyphenated digits).length = 36 := by
  simp [hyphenated, size]

theorem ungroupUuid?_hyphenated {digits : List Char} (size : digits.length = 32) :
    ungroupUuid? (hyphenated digits) = some digits := by
  have hyphens : [8, 13, 18, 23].all ((hyphenated digits)[·]? == some '-') = true := by
    simp [hyphenated, List.getElem?_append, size]
  -- without the hyphens each group joins what follows it
  have group (start : Nat) :
      (digits.drop start).take 4 ++ digits.drop (start + 4) = digits.drop start := by
    rw [← List.drop_drop, List.take_append_drop]
  rw [ungroupUuid?, if_pos ⟨length_hyphenated size, hyphens⟩]
  simp [hyphenated, List.drop_append, List.drop_take, size, group]

/-- The 16 bytes of a UUID are read from their digits, with the hyphens and without. -/
theorem IsHex.uuidBytes?_eq {bytes : List UInt8} {digits : List Char} (is : IsHex bytes digits)
    (size : bytes.length = 16) :
    uuidBytes? digits = some bytes ∧ uuidBytes? (hyphenated digits) = some bytes := by
  have length : digits.length = 32 := by rw [is.length_eq, size]
  have plain : unwrapUuid (hyphenated digits) = hyphenated digits := by
    simp [unwrapUuid, length_hyphenated length]
  constructor
  · rw [uuidBytes?, if_pos length, is.hexBytes?_eq]
  · rw [uuidBytes?, if_neg (by simp [length_hyphenated length]), plain,
      ungroupUuid?_hyphenated length, Option.bind_some, is.hexBytes?_eq]

/-! Base64 -/

theorem base64Digit_ne_padding {value : Nat} (small : value < 64) : base64Digit value ≠ '=' := by
  intro same
  have read := base64Digit?_base64Digit small
  rw [same] at read
  cases read

theorem base64Bytes?_base64Text (bytes : List UInt8) :
    base64Bytes? (base64Text bytes) = some bytes := by
  -- a group holds three bytes in four digits, and only the last one may be filled up
  induction bytes using base64Text.induct with
  | case1 => rfl
  | case2 a =>
    have bound := a.toNat_lt
    have first : a.toNat / 4 * 4 + a.toNat % 4 * 16 / 16 = a.toNat := by omega
    simp only [base64Text, base64Bytes?, and_self, if_true, base64LastGroup?,
      base64Digit?_base64Digit (by omega : a.toNat / 4 < 64),
      base64Digit?_base64Digit (by omega : a.toNat % 4 * 16 < 64),
      if_pos (by omega : a.toNat % 4 * 16 % 16 = 0), first, UInt8.ofNat_toNat]
  | case3 a b =>
    have boundA := a.toNat_lt
    have boundB := b.toNat_lt
    have first : a.toNat / 4 * 4 + (a.toNat % 4 * 16 + b.toNat / 16) / 16 = a.toNat := by omega
    have second : (a.toNat % 4 * 16 + b.toNat / 16) % 16 * 16 + b.toNat % 16 * 4 / 4 = b.toNat := by
      omega
    simp only [base64Text, base64Bytes?, and_self, if_true, base64LastGroup?,
      base64Digit?_base64Digit (by omega : a.toNat / 4 < 64),
      base64Digit?_base64Digit (by omega : a.toNat % 4 * 16 + b.toNat / 16 < 64),
      base64Digit?_base64Digit (by omega : b.toNat % 16 * 4 < 64),
      if_neg (base64Digit_ne_padding (by omega : b.toNat % 16 * 4 < 64)),
      if_pos (by omega : b.toNat % 16 * 4 % 4 = 0), first, second, UInt8.ofNat_toNat]
  | case4 a b c bytes ih =>
    have boundA := a.toNat_lt
    have boundB := b.toNat_lt
    have boundC := c.toNat_lt
    have first : a.toNat / 4 * 4 + (a.toNat % 4 * 16 + b.toNat / 16) / 16 = a.toNat := by omega
    have second : (a.toNat % 4 * 16 + b.toNat / 16) % 16 * 16 +
        (b.toNat % 16 * 4 + c.toNat / 64) / 4 = b.toNat := by omega
    have third : (b.toNat % 16 * 4 + c.toNat / 64) % 4 * 64 + c.toNat % 64 = c.toNat := by omega
    have padded := base64Digit_ne_padding (by omega : c.toNat % 64 < 64)
    simp only [base64Text, base64Bytes?, padded, false_and, if_false, base64Group?,
      base64Digit?_base64Digit (by omega : a.toNat / 4 < 64),
      base64Digit?_base64Digit (by omega : a.toNat % 4 * 16 + b.toNat / 16 < 64),
      base64Digit?_base64Digit (by omega : b.toNat % 16 * 4 + c.toNat / 64 < 64),
      base64Digit?_base64Digit (by omega : c.toNat % 64 < 64), ih, first, second, third,
      UInt8.ofNat_toNat, List.cons_append, List.nil_append]

example : base64Bytes? "Zm9vYg==".toList = some [0x66, 0x6f, 0x6f, 0x62] := by decide

end MongoShell
