import Mathlib.Tactic.Common
import MongoShell.Json
import MongoShell.Proofs.Token.Scan
import MongoShell.Token.Literal

/-! Strings in quotes, escaped as JSON wants it. The scanner takes such a string for one token,
since every escape is a backslash and characters that close nothing; and the token stands for the
string, since every escape is resolved to the character that it was made for. -/

namespace MongoShell

/-! The token -/

/-- Whether a scanner that has to find the closing quote gets past a text. -/
def Passes (body : List Char) : Prop :=
  ∀ rest, cutString '"' false (body ++ rest) =
    (cutString '"' false rest).map fun cut => ⟨body ++ cut.text, cut.rest⟩

namespace Passes

theorem nil : Passes [] := by
  intro rest
  rw [List.nil_append]
  cases cutString '"' false rest <;> rfl

theorem append {first second : List Char} (before : Passes first) (behind : Passes second) :
    Passes (first ++ second) := by
  intro rest
  rw [List.append_assoc, before, behind, Option.map_map]
  simp only [Function.comp_def, List.append_assoc]

/-- A character that neither closes the string nor starts an escape. -/
theorem plain {c : Char} (noQuote : c ≠ '"') (noBreak : c ≠ '\n') (noBackslash : c ≠ '\\') :
    Passes [c] := by
  intro rest
  have unescaped : (c == '\\') = false := beq_eq_false_iff_ne.mpr noBackslash
  rw [List.singleton_append, cutString, if_neg Bool.false_ne_true, if_neg noQuote, if_neg noBreak,
    unescaped]
  rfl

/-- A backslash and the character that it takes along. -/
theorem escape (c : Char) : Passes ['\\', c] := by
  intro rest
  change cutString '"' false ('\\' :: c :: rest) = _
  rw [cutString, if_neg Bool.false_ne_true, if_neg (by decide), if_neg (by decide)]
  change (cutString '"' true (c :: rest)).map (Cut.cons '\\') = _
  rw [cutString, if_pos rfl, Option.map_map]
  rfl

end Passes

theorem hexDigit_plain {n : Nat} (small : n < 16) :
    hexDigit n ≠ '"' ∧ hexDigit n ≠ '\n' ∧ hexDigit n ≠ '\\' := by
  have all : ∀ n < 16, hexDigit n ≠ '"' ∧ hexDigit n ≠ '\n' ∧ hexDigit n ≠ '\\' := by decide
  exact all n small

namespace Json

/-- What a character is escaped to: a letter that stands for it, its code, or itself. -/
theorem escapeChar_cases (c : Char) :
    (∃ letter, escapeChar c = ['\\', letter] ∧ letter ≠ 'x' ∧ letter ≠ 'u' ∧
      StringLiteral.shortEscape letter = c) ∨
    (c.toNat < 0x20 ∧ escapeChar c =
      ['\\', 'u', '0', '0', hexDigit (c.toNat / 16), hexDigit (c.toNat % 16)]) ∨
    (c ≠ '"' ∧ c ≠ '\n' ∧ c ≠ '\\' ∧ escapeChar c = [c]) := by
  by_cases lettered : c ∈ ['"', '\\', '\x08', '\x0c', '\n', '\r', '\t']
  · simp only [List.mem_cons, List.not_mem_nil, or_false] at lettered
    left
    rcases lettered with rfl | rfl | rfl | rfl | rfl | rfl | rfl <;>
      exact ⟨_, rfl, by decide, by decide, rfl⟩
  · simp only [List.mem_cons, List.not_mem_nil, or_false, not_or] at lettered
    obtain ⟨quote, backslash, back, feed, line, carriage, tab⟩ := lettered
    right
    rw [escapeChar, if_neg quote, if_neg backslash, if_neg back, if_neg feed, if_neg line,
      if_neg carriage, if_neg tab]
    by_cases control : c.toNat < 0x20
    · exact .inl ⟨control, if_pos control⟩
    · exact .inr ⟨quote, line, backslash, if_neg control⟩

theorem escapeChar_passes (c : Char) : Passes (escapeChar c) := by
  rcases escapeChar_cases c with
    ⟨letter, shown, -, -, -⟩ | ⟨control, shown⟩ | ⟨noQuote, noBreak, noBackslash, shown⟩
  · rw [shown]
    exact .escape letter
  · obtain ⟨upperQuote, upperBreak, upperSlash⟩ :=
      hexDigit_plain (n := c.toNat / 16) (by omega)
    obtain ⟨lowerQuote, lowerBreak, lowerSlash⟩ :=
      hexDigit_plain (n := c.toNat % 16) (Nat.mod_lt _ (by decide))
    have zero : Passes ['0'] := .plain (by decide) (by decide) (by decide)
    rw [shown]
    exact (Passes.escape 'u').append (zero.append (zero.append
      ((Passes.plain upperQuote upperBreak upperSlash).append
        (.plain lowerQuote lowerBreak lowerSlash))))
  · rw [shown]
    exact .plain noQuote noBreak noBackslash

theorem flatMap_escapeChar_passes (text : List Char) : Passes (text.flatMap escapeChar) := by
  induction text with
  | nil => exact .nil
  | cons c text ih =>
    rw [List.flatMap_cons]
    exact (escapeChar_passes c).append ih

/-- A string in quotes is one token, whatever follows it. -/
theorem scans_quote (text : String) (rest : List Char) :
    Scans (quote text) rest (IsToken .string (quote text)) := by
  have body := flatMap_escapeChar_passes text.toList ('"' :: rest)
  have closing : cutString '"' false ('"' :: rest) = some ⟨['"'], rest⟩ := rfl
  rw [closing, Option.map_some] at body
  have shown : quote text = '"' :: (text.toList.flatMap escapeChar ++ ['"']) := rfl
  rw [shown]
  refine Scans.ofFront ?_
  rw [List.append_assoc, List.singleton_append, front, if_neg (by decide), if_neg (by decide),
    if_pos (by decide), body]
  rfl

end Json

/-! What it stands for -/

namespace StringLiteral

theorem decode_plain {c : Char} (noBackslash : c ≠ '\\') (rest : List Char) :
    decode (c :: rest) = (decode rest).map (c :: ·) := by
  cases rest with
  | nil => simp [decode]
  | cons d rest => rw [decode, if_neg noBackslash]

theorem decode_escape {c d : Char} {text rest : List Char}
    (read : readEscape c text = some (d, rest)) :
    decode ('\\' :: c :: text) = (decode rest).map (d :: ·) := by
  rw [decode, if_pos rfl]
  split
  · rename_i found
    rw [read] at found
    cases found
    rfl
  · rename_i found
    rw [read] at found
    cases found

theorem decode_short {c : Char} (noHex : c ≠ 'x') (noCode : c ≠ 'u') (rest : List Char) :
    decode ('\\' :: c :: rest) = (decode rest).map (shortEscape c :: ·) := by
  refine decode_escape ?_
  rw [readEscape, if_neg noHex, if_neg noCode]

theorem readEscape_code {c : Char} (control : c.toNat < 0x20) (rest : List Char) :
    readEscape 'u' ('0' :: '0' :: hexDigit (c.toNat / 16) :: hexDigit (c.toNat % 16) :: rest) =
      some (c, rest) := by
  have digits :
      ∀ n < 0x20, hexValue? ['0', '0', hexDigit (n / 16), hexDigit (n % 16)] = some n := by
    decide
  have read : readHex 4
      ('0' :: '0' :: hexDigit (c.toNat / 16) :: hexDigit (c.toNat % 16) :: rest) =
      some (c.toNat, rest) := by
    rw [readHex, if_pos (by simp)]
    change (hexValue? ['0', '0', hexDigit (c.toNat / 16), hexDigit (c.toNat % 16)]).map _ = _
    rw [digits c.toNat control]
    rfl
  have noHigh : isHighSurrogate c.toNat = false := by
    simp [isHighSurrogate]
    omega
  have noLow : isLowSurrogate c.toNat = false := by
    simp [isLowSurrogate]
    omega
  rw [readEscape, if_neg (by decide), if_pos rfl, read]
  simp only [noHigh, noLow, Bool.false_eq_true, if_false, Char.ofNat_toNat]

theorem decode_escapeChar (c : Char) (rest : List Char) :
    decode (Json.escapeChar c ++ rest) = (decode rest).map (c :: ·) := by
  rcases Json.escapeChar_cases c with
    ⟨letter, shown, noHex, noCode, meant⟩ | ⟨control, shown⟩ | ⟨-, -, noBackslash, shown⟩
  · rw [shown, ← meant]
    exact decode_short noHex noCode rest
  · rw [shown]
    exact decode_escape (readEscape_code control rest)
  · rw [shown]
    exact decode_plain noBackslash rest

theorem decode_flatMap_escapeChar (text : List Char) :
    decode (text.flatMap Json.escapeChar) = some text := by
  induction text with
  | nil => simp [decode]
  | cons c text ih => rw [List.flatMap_cons, decode_escapeChar, ih, Option.map_some]

/-- A string in quotes stands for the string. -/
theorem contents?_quote (text : String) :
    contents? (String.ofList (Json.quote text)) = some text := by
  have body : ((Json.quote text).drop 1).dropLast = text.toList.flatMap Json.escapeChar := by
    simp [Json.quote]
  rw [contents?, String.toList_ofList, body, decode_flatMap_escapeChar, Option.map_some,
    String.ofList_toList]

end StringLiteral

end MongoShell
