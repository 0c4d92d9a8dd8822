import MongoShell.Proofs.Bytes.Text
import MongoShell.Proofs.Method.IntegerPlace
import MongoShell.Proofs.Value.Call

/-! Binary data from its texts. The same bytes in Base64, in hexadecimal digits and, if they are
those of a UUID, in its groups are the same value; and its subtype is a byte, however the number is
written. -/

namespace MongoShell

/-- The calls that write bytes with a subtype: in Base64 and in hexadecimal digits behind the number
of the subtype, and 16 bytes as a UUID, its digits with hyphens or without. -/
inductive Expr.WritesBinary (bytes : List UInt8) : UInt8 → Expr → Prop
  | base64 {e subtype : Expr} {n : UInt8} {number : List Char} (place : Span)
      (writes : subtype.WritesNumber number n.toNat)
      (calls : e.Calls "BinData" [subtype, .string place (String.ofList (base64Text bytes))]) :
      WritesBinary bytes n e
  | hex {e subtype : Expr} {n : UInt8} {number digits : List Char} (place : Span)
      (writes : subtype.WritesNumber number n.toNat) (is : IsHex bytes digits)
      (calls : e.Calls "HexData" [subtype, .string place (String.ofList digits)]) :
      WritesBinary bytes n e
  | uuid {e : Expr} {digits : List Char} (place : Span) (size : bytes.length = 16)
      (is : IsHex bytes digits)
      (calls : e.Calls "UUID" [.string place (String.ofList digits)]) : WritesBinary bytes 4 e
  | grouped {e : Expr} {digits : List Char} (place : Span) (size : bytes.length = 16)
      (is : IsHex bytes digits)
      (calls : e.Calls "UUID" [.string place (String.ofList (hyphenated digits))]) :
      WritesBinary bytes 4 e

namespace Value

open Outcome

variable {subtype : Expr} {text : List Char} {v : ℚ} {n : UInt8} {bytes : List UInt8} {place : Span}

/-! Subtypes -/

theorem subtypeArgument_eq_ok (writes : subtype.WritesNumber text n.toNat) :
    subtypeArgument subtype = .ok n := by
  have small : |(n.toNat : Int)| < 2 ^ 53 := by
    have range := uint8_range n
    rw [abs_of_nonneg range.1]
    omega
  have taken := takenFor_whole text small
  rw [Int.cast_natCast] at taken
  exact subtypeArgument_eq_ok_iff.mpr ((integerArgument_eq_ok_iff writes _).mpr taken)

/-- A number that is out of the range of a byte is not read as one near to it. -/
theorem exists_subtypeArgument_fault (writes : subtype.WritesNumber text v)
    (outside : v ≤ -1 ∨ 256 ≤ v) : ∃ fault, subtypeArgument subtype = .error fault := by
  cases read : subtypeArgument subtype with
  | error fault => exact ⟨fault, rfl⟩
  | ok n =>
    -- rounding cannot bring the number in, since the bounds are doubles themselves
    have taken := (integerArgument_eq_ok_iff writes _).mp (subtypeArgument_eq_ok_iff.mp read)
    have range := uint8_range n
    rcases outside with below | above
    · have most := (taken.same_side (z := -1) (by decide)).2 (by exact_mod_cast below)
      omega
    · have least := (taken.same_side (z := 256) (by decide)).1 (by exact_mod_cast above)
      omega

/-! Constructors -/

theorem uuidOf_eq_ok {digits : List Char} (fresh : List UInt8)
    (read : uuidBytes? digits = some bytes) :
    uuidOf fresh [.string place (String.ofList digits)] = .ok (.binary 4 bytes) := by
  rw [uuidOf, bind_eq_ok]
  refine ⟨String.ofList digits, rfl, ?_⟩
  rw [String.toList_ofList, read]
  rfl

end Value

theorem Expr.WritesBinary.ofExpr_eq {bytes : List UInt8} {n : UInt8} {e : Expr}
    (writes : e.WritesBinary bytes n) (fresh : Fresh) :
    Value.ofExpr fresh e = .ok (.binary n bytes) := by
  cases writes with
  | base64 place number calls =>
    have read : base64Bytes? (String.ofList (base64Text bytes)).toList = some bytes := by
      rw [String.toList_ofList, base64Bytes?_base64Text]
    exact calls.ofExpr_eq .binData rfl fun _ =>
      Value.binary_eq_ok_iff.mpr ⟨Value.subtypeArgument_eq_ok number, _, rfl, read⟩
  | @hex _ _ _ _ digits place number is calls =>
    have read : hexBytes? (String.ofList digits).toList = some bytes := by
      rw [String.toList_ofList, is.hexBytes?_eq]
    exact calls.ofExpr_eq .hexData rfl fun _ =>
      Value.binary_eq_ok_iff.mpr ⟨Value.subtypeArgument_eq_ok number, _, rfl, read⟩
  | uuid place size is calls =>
    exact calls.ofExpr_eq .uuid rfl
      fun offset => Value.uuidOf_eq_ok (fresh.uuid offset) (is.uuidBytes?_eq size).1
  | grouped place size is calls =>
    exact calls.ofExpr_eq .uuid rfl
      fun offset => Value.uuidOf_eq_ok (fresh.uuid offset) (is.uuidBytes?_eq size).2

/-- The constructors of binary data agree. The same bytes are the same value from Base64, from
hexadecimal digits and, with the subtype of UUIDs, from the digits of a UUID with its hyphens or
without, in letters of either case; and the subtype is the number that is written for it, in
whichever way. A number of -1 or less or of 256 or more is refused as a subtype, and the error names
the constructor. -/
theorem Expr.binary_forms_agree (fresh : Fresh) :
    (∀ bytes n (e : Expr), e.WritesBinary bytes n → Value.ofExpr fresh e = .ok (.binary n bytes)) ∧
    ∀ name ∈ ["BinData", "HexData"], ∀ (subtype data : Expr) text v,
      subtype.WritesNumber text v → v ≤ -1 ∨ 256 ≤ v → ∀ e : Expr, e.Calls name [subtype, data] →
        ∃ fault, Value.ofExpr fresh e = .error ⟨some name, fault⟩ := by
  refine ⟨fun bytes n e writes => writes.ofExpr_eq fresh, ?_⟩
  intro name named subtype data text v writes outside e calls
  obtain ⟨fault, failed⟩ := Value.exists_subtypeArgument_fault writes outside
  refine ⟨fault, ?_⟩
  rcases List.mem_pair.mp named with rfl | rfl
  · have refused : Value.binDataOf [subtype, data] = .error fault := by
      rw [Value.binDataOf, failed]
      rfl
    exact calls.ofExpr_eq .binData rfl fun _ => refused
  · have refused : Value.hexDataOf [subtype, data] = .error fault := by
      rw [Value.hexDataOf, failed]
      rfl
    exact calls.ofExpr_eq .hexData rfl fun _ => refused

/-- The digits of a UUID in letters of both cases, and a number just too large for a subtype. -/
theorem Expr.mixed_case_uuid_and_wide_subtype :
    Value.ofExpr (Fresh.ofSeed 0 0) (.construct nowhere (.call nowhere (.identifier nowhere "UUID")
      [.string nowhere "00010203-0405-0607-0809-0aBcDeFfA0a1"])) =
      .ok (.binary 4 [0, 1, 2, 3, 4, 5, 6, 7, 8, 9, 0x0a, 0xbc, 0xde, 0xff, 0xa0, 0xa1]) ∧
    ∃ fault, Value.ofExpr (Fresh.ofSeed 0 0) (.call nowhere (.identifier nowhere "HexData")
      [.number nowhere "256", .string nowhere "00"]) = .error ⟨some "HexData", fault⟩ := by
  obtain ⟨agree, refused⟩ := binary_forms_agree (Fresh.ofSeed 0 0)
  constructor
  · have is : IsHex [0, 1, 2, 3, 4, 5, 6, 7, 8, 9, 0x0a, 0xbc, 0xde, 0xff, 0xa0, 0xa1]
        "000102030405060708090aBcDeFfA0a1".toList := by
      unfold IsHex
      decide
    exact agree _ _ _ (.grouped nowhere rfl is (.new _ _ _))
  · have digits : ∀ c ∈ "256".toList, c.isDigit = true := List.all_eq_true.mp rfl
    have text : NumberText "256".toList 256 := by
      have writes := NumberText.mk .absent digits .absent (by decide) .absent
      have value : digitsValue ("256".toList ++ []) = 256 := by decide
      rw [value] at writes
      simpa [Double.signed] using writes
    exact refused "HexData" (by simp) _ _ _ _ (.literal nowhere text) (.inr le_rfl) _ (.plain _ _)

end MongoShell
