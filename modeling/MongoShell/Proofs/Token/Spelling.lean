import Mathlib.Data.Set.Operations
import MongoShell.Expr.Reader
import MongoShell.Proofs.Token.LongestMatch
import MongoShell.Proofs.Token.Quote

/-! The ways to write characters between quotes. A character stands for itself, or behind a
backslash for another one, or is written by its code: in two hexadecimal digits, in four, or in
twice four of which each gives one half of a surrogate pair. A string token stands for the
characters that are written so, and for nothing exactly if it writes half a pair without the other
half. -/

namespace MongoShell

namespace StringBody

variable {quote : Char}

theorem behind_escape {c : Char} {body : List Char}
    (inside : StringBody quote ('\\' :: c :: body)) : StringBody quote body := by
  cases inside with
  | escape _ others => exact others
  | plain noQuote noBackslash inLine others => exact absurd rfl noBackslash

theorem behind_plain {c : Char} {body : List Char} (noBackslash : c ≠ '\\')
    (inside : StringBody quote (c :: body)) : c ≠ quote ∧ c ≠ '\n' ∧ StringBody quote body := by
  cases inside with
  | escape _ others => exact absurd rfl noBackslash
  | plain noQuote _ inLine others => exact ⟨noQuote, inLine, others⟩

theorem behind_digits {digits body : List Char}
    (noBackslash : ∀ c ∈ digits, c ≠ '\\') (inside : StringBody quote (digits ++ body)) :
    StringBody quote body := by
  induction digits with
  | nil => exact inside
  | cons c digits ih =>
    obtain ⟨first, others⟩ := List.forall_mem_cons.mp noBackslash
    exact ih others (inside.behind_plain first).2.2

end StringBody

namespace StringLiteral

/-- So many hexadecimal digits that write a code. -/
def HexCode (count : Nat) (digits : List Char) (code : Nat) : Prop :=
  digits.length = count ∧ hexValue? digits = some code

/-- The letters that stand for another character behind a backslash, with that character. -/
def letters : List (Char × Char) :=
  [('n', '\n'), ('t', '\t'), ('r', '\r'), ('b', '\x08'), ('f', '\x0c'), ('v', '\x0b'),
    ('0', '\x00')]

/-- The letters that start a code, with the count of its digits. -/
def codes : List (Char × Nat) := [('x', 2), ('u', 4)]

/-- The halves of surrogate pairs that come first. -/
def highSurrogates : Set Nat := Set.Icc 0xD800 0xDBFF

/-- The halves that come second. -/
def lowSurrogates : Set Nat := Set.Icc 0xDC00 0xDFFF

/-- The ways to write a character between quotes of a sort. -/
inductive Spelling (quote : Char) (c : Char) : List Char → Prop
  | itself (noQuote : c ≠ quote) (noBackslash : c ≠ '\\') (inLine : c ≠ '\n') : Spelling quote c [c]
  | letter {l : Char} (known : (l, c) ∈ letters) : Spelling quote c ['\\', l]
  | byte {digits : List Char} (code : HexCode 2 digits c.toNat) :
      Spelling quote c ('\\' :: 'x' :: digits)
  | unit {digits : List Char} (code : HexCode 4 digits c.toNat) :
      Spelling quote c ('\\' :: 'u' :: digits)
  | pair {digits more : List Char} (above : 0x10000 ≤ c.toNat)
      (high : HexCode 4 digits (0xD800 + (c.toNat - 0x10000) / 0x400))
      (low : HexCode 4 more (0xDC00 + (c.toNat - 0x10000) % 0x400)) :
      Spelling quote c ('\\' :: 'u' :: (digits ++ '\\' :: 'u' :: more))
  | escaped (noLetter : c ∉ letters.map Prod.fst) (noCode : c ∉ codes.map Prod.fst) :
      Spelling quote c ['\\', c]

/-- No code of so many digits stands at the front of a text. -/
def Codeless (count : Nat) (text : List Char) : Prop :=
  ∀ digits code, digits <+: text → ¬HexCode count digits code

/-- The text between quotes of a sort, and the characters that it writes. A letter that would start
a code stands for itself where the digits are missing. -/
inductive Writes (quote : Char) : List Char → List Char → Prop
  | nil : Writes quote [] []
  | cons {c : Char} {piece body text : List Char} (spelling : Spelling quote c piece)
      (others : Writes quote body text) : Writes quote (piece ++ body) (c :: text)
  | bare {letter : Char} {count : Nat} {body text : List Char} (known : (letter, count) ∈ codes)
      (codeless : Codeless count body) (others : Writes quote body text) :
      Writes quote ('\\' :: letter :: body) (letter :: text)

/-! Unpaired surrogates -/

/-- A part of the text between quotes: what gives a character by itself, or the code that is given
behind `\u`. -/
inductive Part where
  | plain (c : Char)
  | unit (code : Nat)

/-- The text between quotes in its parts. -/
inductive Parts : List Char → List Part → Prop
  | nil : Parts [] []
  | itself {c : Char} {body : List Char} {parts : List Part} (noBackslash : c ≠ '\\')
      (others : Parts body parts) : Parts (c :: body) (.plain c :: parts)
  | letter {c : Char} {body : List Char} {parts : List Part} (noCode : c ∉ codes.map Prod.fst)
      (others : Parts body parts) : Parts ('\\' :: c :: body) (.plain (shortEscape c) :: parts)
  | byte {digits body : List Char} {code : Nat} {parts : List Part}
      (written : HexCode 2 digits code) (others : Parts body parts) :
      Parts ('\\' :: 'x' :: (digits ++ body)) (.plain (Char.ofNat code) :: parts)
  | unit {digits body : List Char} {code : Nat} {parts : List Part}
      (written : HexCode 4 digits code) (others : Parts body parts) :
      Parts ('\\' :: 'u' :: (digits ++ body)) (.unit code :: parts)
  | bare {letter : Char} {count : Nat} {body : List Char} {parts : List Part}
      (known : (letter, count) ∈ codes) (codeless : Codeless count body)
      (others : Parts body parts) : Parts ('\\' :: letter :: body) (.plain letter :: parts)

def StartsLow (parts : List Part) : Prop :=
  ∃ code behind, parts = .unit code :: behind ∧ code ∈ lowSurrogates

def EndsHigh (parts : List Part) : Prop :=
  ∃ front code, parts = front ++ [.unit code] ∧ code ∈ highSurrogates

/-- Among parts one is the first half of a pair with no second half right behind it, or a second
half with no first half right in front of it. -/
def Unpaired (parts : List Part) : Prop :=
  ∃ front code behind, parts = front ++ .unit code :: behind ∧
    (code ∈ highSurrogates ∧ ¬StartsLow behind ∨ code ∈ lowSurrogates ∧ ¬EndsHigh front)

/-- An escape in the text between quotes writes half a surrogate pair without the other half. -/
def HasUnpaired (body : List Char) : Prop := ∃ parts, Parts body parts ∧ Unpaired parts

/-! Codes -/

theorem hexDigit?_lt {c : Char} {value : Nat} (digit : hexDigit? c = some value) : value < 16 := by
  unfold hexDigit? at digit
  have bounds {low high : Char} (between : low ≤ c ∧ c ≤ high) :
      low.toNat ≤ c.toNat ∧ c.toNat ≤ high.toNat := between
  split at digit
  · rename_i between
    obtain ⟨-, most⟩ := bounds between
    have top : '9'.toNat = 57 := rfl
    have zero : '0'.toNat = 48 := rfl
    cases digit
    omega
  split at digit
  · rename_i between
    obtain ⟨-, most⟩ := bounds between
    have top : 'f'.toNat = 102 := rfl
    have ten : 'a'.toNat = 97 := rfl
    cases digit
    omega
  split at digit
  · rename_i between
    obtain ⟨-, most⟩ := bounds between
    have top : 'F'.toNat = 70 := rfl
    have ten : 'A'.toNat = 65 := rfl
    cases digit
    omega
  · cases digit

theorem hexValue?_append_singleton {digits : List Char} {c : Char} {code : Nat} :
    hexValue? (digits ++ [c]) = some code ↔
      ∃ front value, hexValue? digits = some front ∧ hexDigit? c = some value ∧
        code = front * 16 + value := by
  unfold hexValue?
  rw [List.foldlM_append]
  simp only [List.foldlM_cons, List.foldlM_nil, Option.bind_eq_bind, Option.bind_eq_some_iff,
    Option.map_eq_some_iff, Option.pure_def, Option.some.injEq]
  constructor
  · rintro ⟨front, read, _, ⟨value, digit, rfl⟩, rfl⟩
    exact ⟨front, value, read, digit, rfl⟩
  · rintro ⟨front, value, read, digit, rfl⟩
    exact ⟨front, read, _, ⟨value, digit, rfl⟩, rfl⟩

theorem hexValue?_spec {digits : List Char} {code : Nat} (read : hexValue? digits = some code) :
    code < 16 ^ digits.length ∧ ∀ c ∈ digits, (hexDigit? c).isSome := by
  induction digits using List.reverseRecOn generalizing code with
  | nil =>
    cases read
    exact ⟨by decide, nofun⟩
  | append_singleton digits c ih =>
    obtain ⟨front, value, early, digit, rfl⟩ := hexValue?_append_singleton.mp read
    obtain ⟨bound, all⟩ := ih early
    have small := hexDigit?_lt digit
    refine ⟨?_, fun d member => ?_⟩
    · rw [List.length_append, List.length_singleton, Nat.pow_succ]
      omega
    · rcases List.mem_append.mp member with early | last
      · exact all d early
      · rw [List.mem_singleton.mp last, digit]
        rfl

theorem HexCode.lt {count : Nat} {digits : List Char} {code : Nat}
    (written : HexCode count digits code) : code < 16 ^ count := by
  obtain ⟨rfl, read⟩ := written
  exact (hexValue?_spec read).1

/-- Digits of a code neither close a string nor start an escape. -/
theorem HexCode.plain {count : Nat} {digits : List Char} {code : Nat}
    (written : HexCode count digits code) :
    ∀ c ∈ digits, c ≠ '"' ∧ c ≠ '\'' ∧ c ≠ '\\' ∧ c ≠ '\n' := by
  intro c member
  have digit := (hexValue?_spec written.2).2 c member
  refine ⟨?_, ?_, ?_, ?_⟩ <;> rintro rfl <;> cases digit

theorem readHex_code {count : Nat} {digits : List Char} {code : Nat}
    (written : HexCode count digits code) (rest : List Char) :
    readHex count (digits ++ rest) = some (code, rest) := by
  obtain ⟨rfl, read⟩ := written
  rw [readHex, if_pos (by simp), List.take_left, List.drop_left, read]
  rfl

theorem readHex_codeless {count : Nat} {text : List Char} (codeless : Codeless count text) :
    readHex count text = none := by
  unfold readHex
  split
  · rename_i enough
    cases read : hexValue? (text.take count) with
    | none => rfl
    | some code =>
      exact absurd ⟨List.length_take_of_le enough, read⟩ (codeless _ code (List.take_prefix _ _))
  · rfl

/-! Escapes -/

theorem isHighSurrogate_iff {code : Nat} : isHighSurrogate code = true ↔ code ∈ highSurrogates := by
  simp [isHighSurrogate, highSurrogates]

theorem isLowSurrogate_iff {code : Nat} : isLowSurrogate code = true ↔ code ∈ lowSurrogates := by
  simp [isLowSurrogate, lowSurrogates]

/-- No half is both a first and a second one. -/
theorem not_low_of_high {code : Nat} (high : code ∈ highSurrogates) : code ∉ lowSurrogates := by
  simp only [highSurrogates, lowSurrogates, Set.mem_Icc] at *
  omega

theorem readEscape_letter {c : Char} (noCode : c ∉ codes.map Prod.fst) (text : List Char) :
    readEscape c text = some (shortEscape c, text) := by
  simp only [codes, List.map_cons, List.map_nil, List.mem_cons, List.not_mem_nil, or_false,
    not_or] at noCode
  rw [readEscape, if_neg noCode.1, if_neg noCode.2]

theorem readEscape_bare {letter : Char} {count : Nat} (known : (letter, count) ∈ codes)
    {text : List Char} (codeless : Codeless count text) :
    readEscape letter text = some (letter, text) := by
  simp only [codes, List.mem_cons, List.not_mem_nil, or_false, Prod.mk.injEq] at known
  rcases known with ⟨rfl, rfl⟩ | ⟨rfl, rfl⟩
  · rw [readEscape, if_pos rfl, readHex_codeless codeless]
  · rw [readEscape, if_neg (by decide), if_pos rfl, readHex_codeless codeless]

section

variable {digits more : List Char} {code low : Nat}

theorem readEscape_byte (written : HexCode 2 digits code) (rest : List Char) :
    readEscape 'x' (digits ++ rest) = some (Char.ofNat code, rest) := by
  rw [readEscape, if_pos rfl, readHex_code written]

theorem readEscape_high (written : HexCode 4 digits code) (high : code ∈ highSurrogates)
    (rest : List Char) :
    readEscape 'u' (digits ++ rest) = (readLowSurrogate rest).map fun (low, rest) =>
      (Char.ofNat (joinSurrogates code low), rest) := by
  rw [readEscape, if_neg (by decide), if_pos rfl, readHex_code written]
  exact if_pos (isHighSurrogate_iff.mpr high)

theorem readEscape_low (written : HexCode 4 digits code) (isLow : code ∈ lowSurrogates)
    (rest : List Char) : readEscape 'u' (digits ++ rest) = none := by
  have noHigh : ¬isHighSurrogate code = true :=
    fun high => not_low_of_high (isHighSurrogate_iff.mp high) isLow
  rw [readEscape, if_neg (by decide), if_pos rfl, readHex_code written]
  simp only [if_neg noHigh, if_pos (isLowSurrogate_iff.mpr isLow)]

theorem readEscape_unit (written : HexCode 4 digits code) (noHigh : code ∉ highSurrogates)
    (noLow : code ∉ lowSurrogates) (rest : List Char) :
    readEscape 'u' (digits ++ rest) = some (Char.ofNat code, rest) := by
  rw [readEscape, if_neg (by decide), if_pos rfl, readHex_code written]
  simp only [if_neg (mt isHighSurrogate_iff.mp noHigh), if_neg (mt isLowSurrogate_iff.mp noLow)]

theorem readLowSurrogate_code (written : HexCode 4 more low) (isLow : low ∈ lowSurrogates)
    (rest : List Char) : readLowSurrogate ('\\' :: 'u' :: (more ++ rest)) = some (low, rest) := by
  rw [readLowSurrogate, readHex_code written, Option.filter_some,
    if_pos (isLowSurrogate_iff.mpr isLow)]

theorem readLowSurrogate_none {body : List Char} {parts : List Part} (cut : Parts body parts)
    (noLow : ¬StartsLow parts) : readLowSurrogate body = none := by
  unfold readLowSurrogate
  split
  · generalize shown : '\\' :: 'u' :: _ = body at cut
    cases cut with
    | nil => cases shown
    | itself noBackslash others =>
      cases shown
      exact absurd rfl noBackslash
    | letter noCode others =>
      cases shown
      exact absurd (by decide) noCode
    | byte written others => cases shown
    | unit written others =>
      cases shown
      have other : ¬isLowSurrogate _ = true :=
        fun isLow => noLow ⟨_, _, rfl, isLowSurrogate_iff.mp isLow⟩
      rw [readHex_code written, Option.filter_some, if_neg other]
    | @bare letter count _ _ known codeless others =>
      cases shown
      obtain rfl : count = 4 := by simpa [codes] using known
      rw [readHex_codeless codeless]
      rfl
  · rfl

end

theorem decode_fails {c : Char} {text : List Char} (fails : readEscape c text = none) :
    decode ('\\' :: c :: text) = none := by
  rw [decode, if_pos rfl]
  split
  · rename_i found
    rw [fails] at found
    cases found
  · rfl

/-! What is written is read -/

/-- The two halves of a code point above U+FFFF. -/
theorem joinSurrogates_halves {n : Nat} (above : 0x10000 ≤ n) (valid : n < 0x110000) :
    0xD800 + (n - 0x10000) / 0x400 ∈ highSurrogates ∧
      0xDC00 + (n - 0x10000) % 0x400 ∈ lowSurrogates ∧
      joinSurrogates (0xD800 + (n - 0x10000) / 0x400) (0xDC00 + (n - 0x10000) % 0x400) = n := by
  unfold highSurrogates lowSurrogates joinSurrogates
  simp only [Set.mem_Icc]
  omega

/-- Two halves are those of the code point that they make. -/
theorem halves_joinSurrogates {high low : Nat} (isHigh : high ∈ highSurrogates)
    (isLow : low ∈ lowSurrogates) :
    (0x10000 ≤ joinSurrogates high low ∧ joinSurrogates high low < 0x110000) ∧
      0xD800 + (joinSurrogates high low - 0x10000) / 0x400 = high ∧
      0xDC00 + (joinSurrogates high low - 0x10000) % 0x400 = low := by
  unfold highSurrogates at isHigh
  unfold lowSurrogates at isLow
  unfold joinSurrogates
  simp only [Set.mem_Icc] at isHigh isLow
  omega

theorem toNat_lt (c : Char) : c.toNat < 0x110000 := by
  have valid : c.toNat < 0xD800 ∨ 0xDFFF < c.toNat ∧ c.toNat < 0x110000 := c.valid
  omega

theorem exists_char {code : Nat} (valid : code < 0xD800 ∨ 0xDFFF < code ∧ code < 0x110000) :
    ∃ c : Char, c.toNat = code := by
  refine ⟨Char.ofNat code, ?_⟩
  rw [Char.ofNat, dif_pos valid]
  rfl

theorem not_surrogate (c : Char) : c.toNat ∉ highSurrogates ∧ c.toNat ∉ lowSurrogates := by
  have valid : c.toNat < 0xD800 ∨ 0xDFFF < c.toNat ∧ c.toNat < 0x110000 := c.valid
  simp only [highSurrogates, lowSurrogates, Set.mem_Icc]
  omega

theorem shortEscape_letters : ∀ entry ∈ letters, shortEscape entry.1 = entry.2 := by
  simp [letters, shortEscape]

theorem letters_noCode : ∀ entry ∈ letters, entry.1 ∉ codes.map Prod.fst := by
  simp [letters, codes]

/-- Most characters stand for themselves behind a backslash. -/
theorem shortEscape_self {c : Char} (noLetter : c ∉ letters.map Prod.fst) : shortEscape c = c := by
  simp only [letters, List.map_cons, List.map_nil, List.mem_cons, List.not_mem_nil, or_false,
    not_or] at noLetter
  unfold shortEscape
  split <;> simp_all

theorem Spelling.decode {quote c : Char} {piece : List Char} (spelling : Spelling quote c piece)
    (rest : List Char) :
    StringLiteral.decode (piece ++ rest) = (StringLiteral.decode rest).map (c :: ·) := by
  cases spelling with
  | itself noQuote noBackslash inLine => exact decode_plain noBackslash rest
  | letter known =>
    have read := readEscape_letter (letters_noCode _ known) rest
    rw [shortEscape_letters _ known] at read
    exact decode_escape read
  | byte written =>
    have read := readEscape_byte written rest
    rw [Char.ofNat_toNat] at read
    exact decode_escape read
  | unit written =>
    have read := readEscape_unit written (not_surrogate c).1 (not_surrogate c).2 rest
    rw [Char.ofNat_toNat] at read
    exact decode_escape read
  | @pair digits more above high low =>
    obtain ⟨isHigh, isLow, joined⟩ := joinSurrogates_halves above (toNat_lt c)
    have read := readEscape_high high isHigh ('\\' :: 'u' :: (more ++ rest))
    simp only [readLowSurrogate_code low isLow, Option.map_some, joined, Char.ofNat_toNat] at read
    rw [List.cons_append, List.cons_append, List.append_assoc, List.cons_append, List.cons_append]
    exact decode_escape read
  | escaped noLetter noCode =>
    have read := readEscape_letter noCode rest
    rw [shortEscape_self noLetter] at read
    exact decode_escape read

theorem Writes.decode {quote : Char} {body text : List Char} (writes : Writes quote body text) :
    StringLiteral.decode body = some text := by
  induction writes with
  | nil => simp [StringLiteral.decode]
  | cons spelling others ih => rw [spelling.decode, ih, Option.map_some]
  | bare known codeless others ih =>
    rw [decode_escape (readEscape_bare known codeless), ih, Option.map_some]

/-! What is read is written -/

/-- A part behind the first ones ends them high only if it is a first half itself. -/
theorem EndsHigh.of_cons {part : Part} {front : List Part} (ends : EndsHigh (part :: front)) :
    (∃ code ∈ highSurrogates, front = [] ∧ part = .unit code) ∨ EndsHigh front := by
  obtain ⟨others, code, shown, high⟩ := ends
  cases others with
  | nil =>
    cases shown
    exact .inl ⟨code, high, rfl, rfl⟩
  | cons other others =>
    obtain ⟨-, rfl⟩ := List.cons.inj shown
    exact .inr ⟨others, code, rfl, high⟩

namespace Unpaired

variable {part : Part} {parts : List Part} {code low : Nat}

/-- A part in front that is no first half pairs nothing. -/
theorem cons (noHigh : ∀ code ∈ highSurrogates, part ≠ .unit code) (unpaired : Unpaired parts) :
    Unpaired (part :: parts) := by
  obtain ⟨front, code, behind, rfl, alone⟩ := unpaired
  refine ⟨part :: front, code, behind, rfl, alone.imp_right fun ⟨low, starts⟩ => ⟨low, ?_⟩⟩
  intro ends
  rcases ends.of_cons with ⟨code, high, -, same⟩ | ends
  · exact noHigh code high same
  · exact starts ends

/-- An unpaired half is the first part, or it is unpaired behind that. -/
theorem of_cons (unpaired : Unpaired (part :: parts)) :
    (∃ code, part = .unit code ∧
      (code ∈ highSurrogates ∧ ¬StartsLow parts ∨ code ∈ lowSurrogates)) ∨ Unpaired parts := by
  obtain ⟨front, code, behind, shown, alone⟩ := unpaired
  cases front with
  | nil =>
    cases shown
    exact .inl ⟨code, rfl, alone.imp_right And.left⟩
  | cons first front =>
    cases shown
    refine .inr ⟨front, code, behind, rfl, alone.imp_right fun ⟨low, ends⟩ => ⟨low, ?_⟩⟩
    rintro ⟨others, high, rfl, isHigh⟩
    exact ends ⟨part :: others, high, rfl, isHigh⟩

theorem of_high (high : code ∈ highSurrogates) (alone : ¬StartsLow parts) :
    Unpaired (.unit code :: parts) :=
  ⟨[], code, parts, rfl, .inl ⟨high, alone⟩⟩

theorem of_low (low : code ∈ lowSurrogates) : Unpaired (.unit code :: parts) := by
  refine ⟨[], code, parts, rfl, .inr ⟨low, ?_⟩⟩
  rintro ⟨front, high, shown, -⟩
  cases front <;> cases shown

theorem cons_plain_iff {c : Char} : Unpaired (.plain c :: parts) ↔ Unpaired parts := by
  refine ⟨fun unpaired => ?_, cons fun _ _ => nofun⟩
  rcases unpaired.of_cons with ⟨_, ⟨⟩, _⟩ | rest
  exact rest

theorem cons_unit_iff (noHigh : code ∉ highSurrogates) (noLow : code ∉ lowSurrogates) :
    Unpaired (.unit code :: parts) ↔ Unpaired parts := by
  refine ⟨fun unpaired => ?_, cons ?_⟩
  · rcases unpaired.of_cons with ⟨_, ⟨⟩, ⟨high, -⟩ | low⟩ | rest
    · exact absurd high noHigh
    · exact absurd low noLow
    · exact rest
  · rintro other high ⟨⟩
    exact noHigh high

theorem cons_pair_iff (high : code ∈ highSurrogates) (isLow : low ∈ lowSurrogates) :
    Unpaired (.unit code :: .unit low :: parts) ↔ Unpaired parts := by
  have noHigh : low ∉ highSurrogates := fun other => not_low_of_high other isLow
  constructor
  · rintro ⟨front, half, behind, shown, alone⟩
    -- the half is none of the two in front, which stand beside each other
    rcases front with _ | ⟨first, _ | ⟨second, front⟩⟩
    · cases shown
      rcases alone with ⟨-, alone⟩ | ⟨low', -⟩
      · exact absurd ⟨low, parts, rfl, isLow⟩ alone
      · exact absurd low' (not_low_of_high high)
    · cases shown
      rcases alone with ⟨high', -⟩ | ⟨-, alone⟩
      · exact absurd high' noHigh
      · exact absurd ⟨[], code, rfl, high⟩ alone
    · cases shown
      refine ⟨front, half, behind, rfl, alone.imp_right fun ⟨low', ends⟩ => ⟨low', ?_⟩⟩
      rintro ⟨others, last, rfl, isHigh⟩
      exact ends ⟨.unit code :: .unit low :: others, last, rfl, isHigh⟩
  · rintro ⟨front, half, behind, rfl, alone⟩
    refine ⟨.unit code :: .unit low :: front, half, behind, rfl,
      alone.imp_right fun ⟨low', starts⟩ => ⟨low', ?_⟩⟩
    intro ends
    rcases ends.of_cons with ⟨_, _, empty, _⟩ | ends
    · cases empty
    rcases ends.of_cons with ⟨other, high', -, same⟩ | ends
    · cases same
      exact noHigh high'
    · exact starts ends

end Unpaired

theorem not_unpaired_nil : ¬Unpaired [] := by
  rintro ⟨front, code, behind, shown, -⟩
  cases front <;> cases shown

section

variable {quote : Char}

theorem inside_behind_code {count code : Nat} {c : Char} {digits body : List Char}
    (written : HexCode count digits code)
    (inside : StringBody quote ('\\' :: c :: (digits ++ body))) : StringBody quote body :=
  inside.behind_escape.behind_digits fun c member => (written.plain c member).2.2.1

/-- Behind a backslash every letter that starts no code writes a character. -/
theorem spelling_letter {c : Char} (noCode : c ∉ codes.map Prod.fst) :
    Spelling quote (shortEscape c) ['\\', c] := by
  by_cases known : c ∈ letters.map Prod.fst
  · obtain ⟨⟨l, d⟩, member, rfl⟩ := List.mem_map.mp known
    rw [shortEscape_letters _ member]
    exact .letter member
  · rw [shortEscape_self known]
    exact .escaped known noCode

/-- Two halves beside each other write a character. -/
theorem spelling_pair {digits more : List Char} {code low : Nat} (written : HexCode 4 digits code)
    (high : code ∈ highSurrogates) (written' : HexCode 4 more low) (isLow : low ∈ lowSurrogates) :
    ∃ c, Spelling quote c ('\\' :: 'u' :: (digits ++ '\\' :: 'u' :: more)) := by
  obtain ⟨⟨above, below⟩, first, second⟩ := halves_joinSurrogates high isLow
  obtain ⟨c, meant⟩ := exists_char (.inr ⟨Nat.lt_of_lt_of_le (by decide) above, below⟩)
  rw [← meant] at above first second
  exact ⟨c, .pair above (first.symm ▸ written) (second.symm ▸ written')⟩

theorem length_lt_behind (c : Char) (piece body : List Char) :
    body.length < (c :: (piece ++ body)).length := by
  simp only [List.length_cons, List.length_append]
  omega

/-- A spelling in front of the rest of the text between quotes changes nothing about whether the
text writes characters. -/
theorem Spelling.writes_or_fails {c : Char} {piece rest : List Char} {parts others : List Part}
    (spelling : Spelling quote c piece) (same : Unpaired parts ↔ Unpaired others)
    (behind : (¬Unpaired others ∧ ∃ text, Writes quote rest text) ∨
      (Unpaired others ∧ StringLiteral.decode rest = none)) :
    (¬Unpaired parts ∧ ∃ text, Writes quote (piece ++ rest) text) ∨
      (Unpaired parts ∧ StringLiteral.decode (piece ++ rest) = none) := by
  rcases behind with ⟨paired, text, writes⟩ | ⟨unpaired, fails⟩
  · exact .inl ⟨mt same.mp paired, c :: text, .cons spelling writes⟩
  · refine .inr ⟨same.mpr unpaired, ?_⟩
    rw [spelling.decode, fails, Option.map_none]

/-- The text between quotes in its parts: it writes some characters, or a half is unpaired and the
text stands for nothing. -/
theorem Parts.writes_or_fails {body : List Char} {parts : List Part} (cut : Parts body parts)
    (inside : StringBody quote body) :
    (¬Unpaired parts ∧ ∃ text, Writes quote body text) ∨
      (Unpaired parts ∧ decode body = none) := by
  -- a pair takes two parts at once, hence the induction on the length
  induction size : body.length using Nat.strongRecOn generalizing body parts with
  | ind size ih =>
  subst size
  cases cut with
  | nil => exact .inl ⟨not_unpaired_nil, [], .nil⟩
  | @itself c body parts noBackslash others =>
    obtain ⟨noQuote, inLine, inside⟩ := inside.behind_plain noBackslash
    exact (Spelling.itself noQuote noBackslash inLine).writes_or_fails Unpaired.cons_plain_iff
      (ih _ (length_lt_behind c [] body) others inside rfl)
  | @letter c body parts noCode others =>
    exact (spelling_letter noCode).writes_or_fails Unpaired.cons_plain_iff
      (ih _ (length_lt_behind '\\' [c] body) others inside.behind_escape rfl)
  | @byte digits body code parts written others =>
    have small : code < 256 := written.lt
    obtain ⟨c, meant⟩ := exists_char (.inl (Nat.lt_trans small (by decide)))
    have spelling : Spelling quote c ('\\' :: 'x' :: digits) := .byte (meant.symm ▸ written)
    exact spelling.writes_or_fails Unpaired.cons_plain_iff
      (ih _ (length_lt_behind '\\' ('x' :: digits) body) others (inside_behind_code written inside)
        rfl)
  | @bare letter count body parts known codeless others =>
    rcases ih _ (length_lt_behind '\\' [letter] body) others inside.behind_escape rfl with
      ⟨paired, text, writes⟩ | ⟨unpaired, fails⟩
    · exact .inl ⟨mt Unpaired.cons_plain_iff.mp paired, _, .bare known codeless writes⟩
    · refine .inr ⟨Unpaired.cons_plain_iff.mpr unpaired, ?_⟩
      rw [decode_escape (readEscape_bare known codeless), fails, Option.map_none]
  | @unit digits body code parts written others =>
    have behind := inside_behind_code written inside
    by_cases high : code ∈ highSurrogates
    · by_cases starts : StartsLow parts
      · obtain ⟨low, parts, rfl, isLow⟩ := starts
        cases others with
        | @unit more body _ _ written' others =>
          have shorter : body.length <
              ('\\' :: 'u' :: (digits ++ '\\' :: 'u' :: (more ++ body))).length := by
            simp only [List.length_cons, List.length_append]
            omega
          obtain ⟨c, spelling⟩ :
              ∃ c, Spelling quote c ('\\' :: 'u' :: (digits ++ '\\' :: 'u' :: more)) :=
            spelling_pair written high written' isLow
          have result := spelling.writes_or_fails (Unpaired.cons_pair_iff high isLow)
            (ih body.length shorter others (inside_behind_code written' behind) rfl)
          simpa using result
      · refine .inr ⟨.of_high high starts, decode_fails ?_⟩
        rw [readEscape_high written high, readLowSurrogate_none others starts, Option.map_none]
    · by_cases low : code ∈ lowSurrogates
      · exact .inr ⟨.of_low low, decode_fails (readEscape_low written low body)⟩
      · have small : code < 65536 := written.lt
        have valid : code < 0xD800 ∨ 0xDFFF < code ∧ code < 0x110000 := by
          simp only [highSurrogates, lowSurrogates, Set.mem_Icc] at high low
          omega
        obtain ⟨c, meant⟩ := exists_char valid
        have spelling : Spelling quote c ('\\' :: 'u' :: digits) := .unit (meant.symm ▸ written)
        exact spelling.writes_or_fails (Unpaired.cons_unit_iff high low)
          (ih _ (length_lt_behind '\\' ('u' :: digits) body) others behind rfl)

/-- Every text between quotes falls into parts. -/
theorem exists_parts {body : List Char} (inside : StringBody quote body) :
    ∃ parts, Parts body parts := by
  induction size : body.length using Nat.strongRecOn generalizing body with
  | ind size ih =>
  subst size
  cases inside with
  | nil => exact ⟨[], .nil⟩
  | @plain c body noQuote noBackslash inLine others =>
    obtain ⟨parts, cut⟩ := ih _ (length_lt_behind c [] body) others rfl
    exact ⟨_, .itself noBackslash cut⟩
  | @escape c body others =>
    by_cases starts : c ∈ codes.map Prod.fst
    · obtain ⟨⟨letter, count⟩, known, rfl⟩ := List.mem_map.mp starts
      by_cases codeless : Codeless count body
      · obtain ⟨parts, cut⟩ := ih _ (length_lt_behind '\\' [letter] body) others rfl
        exact ⟨_, .bare known codeless cut⟩
      · have code : ∃ digits code, digits <+: body ∧ HexCode count digits code := by
          simpa only [Codeless, not_forall, not_not, exists_prop] using codeless
        obtain ⟨digits, code, ⟨rest, rfl⟩, written⟩ := code
        have behind := inside_behind_code written (others.escape letter)
        obtain ⟨parts, cut⟩ := ih _ (length_lt_behind '\\' (letter :: digits) rest) behind rfl
        simp only [codes, List.mem_cons, List.not_mem_nil, or_false, Prod.mk.injEq] at known
        rcases known with ⟨rfl, rfl⟩ | ⟨rfl, rfl⟩
        · exact ⟨_, .byte written cut⟩
        · exact ⟨_, .unit written cut⟩
    · obtain ⟨parts, cut⟩ := ih _ (length_lt_behind '\\' [c] body) others rfl
      exact ⟨_, .letter starts cut⟩

/-- The text between quotes stands for exactly the characters that it writes. -/
theorem decode_eq_some_iff {body text : List Char} (inside : StringBody quote body) :
    decode body = some text ↔ Writes quote body text := by
  refine ⟨fun read => ?_, Writes.decode⟩
  obtain ⟨parts, cut⟩ := exists_parts inside
  rcases cut.writes_or_fails inside with ⟨-, other, writes⟩ | ⟨-, fails⟩
  · rw [writes.decode] at read
    cases read
    exact writes
  · rw [fails] at read
    cases read

/-- It stands for nothing exactly if a half of a surrogate pair in it is unpaired. -/
theorem decode_eq_none_iff {body : List Char} (inside : StringBody quote body) :
    decode body = none ↔ HasUnpaired body := by
  constructor
  · intro fails
    obtain ⟨parts, cut⟩ := exists_parts inside
    rcases cut.writes_or_fails inside with ⟨-, text, writes⟩ | ⟨unpaired, -⟩
    · rw [writes.decode] at fails
      cases fails
    · exact ⟨parts, cut, unpaired⟩
  · rintro ⟨parts, cut, unpaired⟩
    rcases cut.writes_or_fails inside with ⟨paired, -⟩ | ⟨-, fails⟩
    · exact absurd unpaired paired
    · exact fails

/-! What is written fits between the quotes -/

theorem HexCode.inside {count code : Nat} {digits body : List Char}
    (written : HexCode count digits code) (mark : quote = '"' ∨ quote = '\'')
    (others : StringBody quote body) : StringBody quote (digits ++ body) := by
  have plain := written.plain
  clear written
  induction digits with
  | nil => exact others
  | cons c digits ih =>
    obtain ⟨⟨double, single, noBackslash, inLine⟩, rest⟩ := List.forall_mem_cons.mp plain
    have noQuote : c ≠ quote := by
      rcases mark with rfl | rfl
      · exact double
      · exact single
    exact .plain noQuote noBackslash inLine (ih rest)

theorem Spelling.inside {c : Char} {piece body : List Char} (spelling : Spelling quote c piece)
    (mark : quote = '"' ∨ quote = '\'') (others : StringBody quote body) :
    StringBody quote (piece ++ body) := by
  cases spelling with
  | itself noQuote noBackslash inLine => exact .plain noQuote noBackslash inLine others
  | letter known => exact .escape _ others
  | byte written => exact .escape _ (written.inside mark others)
  | unit written => exact .escape _ (written.inside mark others)
  | @pair digits more above high low =>
    rw [List.cons_append, List.cons_append, List.append_assoc]
    exact .escape _ (high.inside mark (.escape _ (low.inside mark others)))
  | escaped noLetter noCode => exact .escape _ others

theorem Writes.inside {body text : List Char} (writes : Writes quote body text)
    (mark : quote = '"' ∨ quote = '\'') : StringBody quote body := by
  induction writes with
  | nil => exact .nil
  | cons spelling others ih => exact spelling.inside mark ih
  | bare known codeless others ih => exact .escape _ ih

end

end StringLiteral

end MongoShell
