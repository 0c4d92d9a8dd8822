import Mathlib
import MongoShell.Proofs.Outcome
import MongoShell.SyntaxError

/-! Checked access. A reading of a source that goes by byte offsets and token numbers can go wrong
where one over the characters cannot: at a byte or a token that is not there, at a range whose end
cuts a character, at a sum that does not fit. Here each such step is an operation that may fail with
a breach, apart from the refusals that a wrong source meets; and the bytes of a text are put in
relation to its characters. -/

namespace MongoShell

/-- What goes wrong in a step that is taken without looking. -/
inductive Breach where
  /-- There is no byte, or no token, of that number. -/
  | index
  /-- The ends of a range are out of order, beyond the text, or inside a character. -/
  | slice
  /-- A sum or a difference does not fit in 32 bits. -/
  | overflow
  /-- Two halves of a surrogate pair make no code point above U+FFFF. -/
  | surrogate
  /-- A backslash is the last character of a string. -/
  | backslash
  /-- A loop goes on beyond its bound. -/
  | rounds
deriving DecidableEq, Repr

/-- Why a checked reading stops early. -/
inductive Stop where
  | refused (e : SyntaxError)
  | breach (b : Breach)
deriving DecidableEq, Repr

/-- The result of a checked reading. -/
abbrev Checked (α : Type) := Except Stop α

namespace Checked

variable {α : Type}

def breach (b : Breach) : Checked α := .error (.breach b)

def refuse (e : SyntaxError) : Checked α := .error (.refused e)

/-- The item of that number. -/
def get (items : List α) (i : Nat) : Checked α :=
  match items[i]? with
  | some item => .ok item
  | none => breach .index

/-- A number that has to fit in 32 bits. -/
def word (n : Nat) : Checked Nat := if n < 2 ^ 32 then .ok n else breach .overflow

def add (a b : Nat) : Checked Nat := word (a + b)

def sub (a b : Nat) : Checked Nat := if b ≤ a then .ok (a - b) else breach .overflow

/-- What is there is handed on. -/
@[simp] theorem ok_bind {β : Type} (a : α) (next : α → Checked β) : (.ok a >>= next) = next a := rfl

theorem get_eq_ok {items : List α} {i : Nat} {item : α} (there : items[i]? = some item) :
    get items i = .ok item := by
  rw [get, there]

theorem word_eq_ok {n : Nat} (fits : n < 2 ^ 32) : word n = .ok n := if_pos fits

theorem add_eq_ok {a b : Nat} (fits : a + b < 2 ^ 32) : add a b = .ok (a + b) := word_eq_ok fits

theorem sub_eq_ok {a b : Nat} (ordered : b ≤ a) : sub a b = .ok (a - b) := if_pos ordered

/-! The bytes of a text -/

/-- The bytes of a text in UTF-8. -/
def utf8 (text : List Char) : List UInt8 := text.flatMap String.utf8EncodeChar

/-- Bytes behind the first one of a character. -/
def isContinuation (byte : UInt8) : Bool := byte &&& 0xC0 == 0x80

/-- Whether an offset is at an end of a text or between two of its characters. -/
def isBoundary (bytes : List UInt8) (offset : Nat) : Bool :=
  offset == 0 || offset == bytes.length || bytes[offset]?.any (!isContinuation ·)

/-- The text from one offset to another, if both are boundaries and in order. -/
def slice? (bytes : List UInt8) (start stop : Nat) : Option String :=
  if start ≤ stop ∧ isBoundary bytes start ∧ isBoundary bytes stop then
    String.fromUTF8? ((bytes.drop start).take (stop - start)).toByteArray
  else none

/-- The text from one offset to another, which have to be boundaries and in order. -/
def slice (bytes : List UInt8) (start stop : Nat) : Checked String :=
  match slice? bytes start stop with
  | some text => .ok text
  | none => breach .slice

@[simp] theorem utf8_nil : utf8 [] = [] := rfl

@[simp] theorem utf8_cons (c : Char) (text : List Char) :
    utf8 (c :: text) = String.utf8EncodeChar c ++ utf8 text := List.flatMap_cons

@[simp] theorem utf8_append (first second : List Char) :
    utf8 (first ++ second) = utf8 first ++ utf8 second := List.flatMap_append

@[simp] theorem length_utf8 (text : List Char) : (utf8 text).length = byteCount text := by
  induction text with
  | nil => rfl
  | cons c text ih =>
    rw [utf8_cons, List.length_append, String.length_utf8EncodeChar, ih, byteCount]

/-- These are the bytes of the text as a string holds them. -/
theorem toByteArray_utf8 (text : List Char) :
    (utf8 text).toByteArray = (String.ofList text).toByteArray := by
  rw [String.toByteArray_ofList]
  rfl

/-! The bytes of a character -/

/-- A character beyond ASCII. -/
def Wide (c : Char) : Prop := 0x80 ≤ c.toNat

instance (c : Char) : Decidable (Wide c) := inferInstanceAs (Decidable (0x80 ≤ c.toNat))

/-- A test of characters that takes all those beyond ASCII for the same. -/
def Blunt {β : Type} (f : Char → β) : Prop := ∀ c d, Wide c → Wide d → f c = f d

theorem Blunt.of_const {β : Type} {f : Char → β} {b : β} (all : ∀ c, Wide c → f c = b) : Blunt f :=
  fun c d wide wide' => (all c wide).trans (all d wide').symm

theorem toNat_ofUInt8 (byte : UInt8) : (Char.ofUInt8 byte).toNat = byte.toNat := rfl

theorem isContinuation_iff (byte : UInt8) :
    isContinuation byte = true ↔ 0x80 ≤ byte.toNat ∧ byte.toNat < 0xC0 := by
  have all : ∀ n < 256, isContinuation (UInt8.ofNat n) = true ↔ 0x80 ≤ n ∧ n < 0xC0 := by
    decide +kernel
  simpa using all byte.toNat byte.toNat_lt

/-- A character in ASCII is one byte, its code. -/
theorem utf8EncodeChar_narrow {c : Char} (narrow : ¬Wide c) :
    ∃ byte, String.utf8EncodeChar c = [byte] ∧ Char.ofUInt8 byte = c := by
  have below : c.toNat < 0x80 := Nat.lt_of_not_le narrow
  have small : c.val.toNat ≤ 0x7f := Nat.le_of_lt_succ below
  refine ⟨UInt8.ofNat c.toNat, if_pos small, ?_⟩
  · apply Char.toNat_inj.mp
    rw [toNat_ofUInt8, UInt8.toNat_ofNat']
    exact Nat.mod_eq_of_lt (by omega)

theorem utf8Size_narrow {c : Char} (narrow : ¬Wide c) : c.utf8Size = 1 := by
  obtain ⟨own, same, -⟩ := utf8EncodeChar_narrow narrow
  rw [← String.length_utf8EncodeChar, same, List.length_singleton]

/-- Any other character is a byte that starts it and bytes that continue it. -/
theorem utf8EncodeChar_wide {c : Char} (wide : Wide c) :
    ∃ lead tail, String.utf8EncodeChar c = lead :: tail ∧ 0xC0 ≤ lead.toNat ∧
      ∀ byte ∈ tail, isContinuation byte = true := by
  have large : ¬c.val.toNat ≤ 0x7f := Nat.not_le_of_lt wide
  simp only [isContinuation_iff]
  unfold String.utf8EncodeChar
  simp only [if_neg large]
  split
  · refine ⟨_, _, rfl, ?_, ?_⟩
    · rw [UInt8.toNat_ofNat']; omega
    · simp only [List.mem_cons, List.not_mem_nil, or_false, forall_eq, UInt8.toNat_ofNat']; omega
  split
  · refine ⟨_, _, rfl, ?_, ?_⟩
    · rw [UInt8.toNat_ofNat']; omega
    · simp only [List.mem_cons, List.not_mem_nil, or_false, forall_eq_or_imp, forall_eq,
        UInt8.toNat_ofNat']; omega
  · refine ⟨_, _, rfl, ?_, ?_⟩
    · rw [UInt8.toNat_ofNat']; omega
    · simp only [List.mem_cons, List.not_mem_nil, or_false, forall_eq_or_imp, forall_eq,
        UInt8.toNat_ofNat']; omega

theorem wide_ofUInt8 {byte : UInt8} : Wide (Char.ofUInt8 byte) ↔ 0x80 ≤ byte.toNat := Iff.rfl

theorem wide_of_isContinuation {byte : UInt8} (continues : isContinuation byte = true) :
    Wide (Char.ofUInt8 byte) := ((isContinuation_iff byte).mp continues).1

/-- One character looks like another to those who know ASCII only. -/
def Resembles (c d : Char) : Prop := c = d ∨ Wide c ∧ Wide d

/-- Every byte of a character, as a character, resembles it. -/
theorem resembles_of_mem {c : Char} {byte : UInt8} (member : byte ∈ String.utf8EncodeChar c) :
    Resembles (Char.ofUInt8 byte) c := by
  by_cases wide : Wide c
  · obtain ⟨lead, tail, same, bound, continues⟩ := utf8EncodeChar_wide wide
    rw [same] at member
    refine .inr ⟨?_, wide⟩
    rcases List.mem_cons.mp member with rfl | behind
    · exact wide_ofUInt8.mpr (by omega)
    · exact wide_of_isContinuation (continues byte behind)
  · obtain ⟨own, same, rfl⟩ := utf8EncodeChar_narrow wide
    rw [same, List.mem_singleton] at member
    exact .inl (by rw [member])

namespace Resembles

variable {c d : Char}

theorem congr (resembles : Resembles c d) {β : Type} {f : Char → β} (blunt : Blunt f) :
    f c = f d := by
  rcases resembles with rfl | ⟨wide, wide'⟩
  · rfl
  · exact blunt c d wide wide'

theorem eq_iff (resembles : Resembles c d) {x : Char} (narrow : ¬Wide x) : c = x ↔ d = x := by
  rcases resembles with rfl | ⟨wide, wide'⟩
  · rfl
  · constructor <;> rintro rfl
    · exact absurd wide narrow
    · exact absurd wide' narrow

end Resembles

/-- A character is a byte that continues none, and bytes that do. -/
theorem exists_lead (c : Char) :
    ∃ lead tail, String.utf8EncodeChar c = lead :: tail ∧ isContinuation lead = false ∧
      ∀ byte ∈ tail, isContinuation byte = true := by
  by_cases wide : Wide c
  · obtain ⟨lead, tail, same, bound, continues⟩ := utf8EncodeChar_wide wide
    refine ⟨lead, tail, same, Bool.eq_false_iff.mpr fun isTail => ?_, continues⟩
    have := ((isContinuation_iff lead).mp isTail).2
    omega
  · obtain ⟨own, same, rfl⟩ := utf8EncodeChar_narrow wide
    exact ⟨own, [], same, Bool.eq_false_iff.mpr fun continues =>
      wide (wide_of_isContinuation continues), nofun⟩

/-! Slices -/

theorem isBoundary_append (front back : List Char) :
    isBoundary (utf8 (front ++ back)) (byteCount front) = true := by
  cases back with
  | nil => simp [isBoundary]
  | cons c back =>
    obtain ⟨lead, tail, same, leads, -⟩ := exists_lead c
    have there : (utf8 (front ++ c :: back))[byteCount front]? = some lead := by
      rw [utf8_append, ← length_utf8, List.getElem?_append_right (Nat.le_refl _), Nat.sub_self,
        utf8_cons, same]
      rfl
    rw [isBoundary, there, Option.any_some, leads, Bool.not_false, Bool.or_true]

theorem fromUTF8?_toByteArray (text : String) : String.fromUTF8? text.toByteArray = some text := by
  rw [String.fromUTF8?, dif_pos text.isValidUTF8]
  rfl

/-- A range between characters is the text between them. -/
theorem slice?_append (front middle back : List Char) :
    slice? (utf8 (front ++ (middle ++ back))) (byteCount front) (byteCount (front ++ middle)) =
      some (String.ofList middle) := by
  have first := isBoundary_append front (middle ++ back)
  have last := isBoundary_append (front ++ middle) back
  rw [List.append_assoc] at last
  have cut : ((utf8 (front ++ (middle ++ back))).drop (byteCount front)).take
      (byteCount (front ++ middle) - byteCount front) = utf8 middle := by
    rw [byteCount_append, Nat.add_sub_cancel_left, utf8_append, utf8_append, ← length_utf8 front,
      List.drop_left, ← length_utf8 middle, List.take_left]
  rw [slice?, if_pos ⟨by simp, first, last⟩, cut, toByteArray_utf8, fromUTF8?_toByteArray]

theorem slice_append (front middle back : List Char) :
    slice (utf8 (front ++ (middle ++ back))) (byteCount front) (byteCount (front ++ middle)) =
      .ok (String.ofList middle) := by
  rw [slice, slice?_append]

end Checked

end MongoShell
