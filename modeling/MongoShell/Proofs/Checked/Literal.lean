import MongoShell.Proofs.Checked.Access
import MongoShell.Proofs.Token.Pattern
import MongoShell.Proofs.Token.Spelling

/-! Literals by bytes. The contents of a string and the parts of a regular expression are cut out of
the token's text by offsets, codes are computed from their digits, and two halves are joined by sums
and differences. What the scanner has taken for a string or a pattern makes all of these steps good:
they give what the literal stands for. -/

namespace MongoShell.Checked

open StringLiteral (isHighSurrogate isLowSurrogate shortEscape HexCode Codeless)

/-! The readings -/

/-- The number that the first so many bytes write and the characters behind them; nothing is read
unless all the bytes are there and are hexadecimal digits. -/
def readHex (chars : List Char) (digits : Nat) : Checked (Option (Nat × List Char)) :=
  let rest := utf8 chars
  match slice? rest 0 digits with
  | none => return none
  | some hex =>
    if (rest.take digits).all fun byte => (hexDigit? (Char.ofUInt8 byte)).isSome then
      match hexValue? hex.toList with
      | none => return none
      | some code => do return some (code, (← slice rest digits rest.length).toList)
    else return none

/-- The second half of a surrogate pair, in an escape of its own. -/
def readLowSurrogate : List Char → Checked (Option (Nat × List Char))
  | '\\' :: 'u' :: ahead => do return (← readHex ahead 4).filter (isLowSurrogate ·.1)
  | _ => return none

/-- The character that two halves make. -/
def joinSurrogates (high low : Nat) : Checked Char := do
  let upper ← word ((← sub high 0xD800) * 2 ^ 10)
  let code ← add (← add 0x10000 upper) (← sub low 0xDC00)
  if 0x10000 ≤ code ∧ code ≤ 0x10FFFF then return Char.ofNat code else breach .surrogate

/-- The character of a code, unless the code is a half of a pair or beyond the last one. -/
def charOf? (code : Nat) : Option Char :=
  if code.isValidChar then some (Char.ofNat code) else none

/-- The character that an escape stands for, and what follows; `c` stands behind the backslash. -/
def readEscape (c : Char) (chars : List Char) : Checked (Option (Char × List Char)) :=
  if c = 'x' then do
    match ← readHex chars 2 with
    | some (code, behind) => return some ((charOf? code).getD c, behind)
    | none => return some (c, chars)
  else if c = 'u' then do
    match ← readHex chars 4 with
    | some (code, behind) =>
      if isHighSurrogate code then do
        match ← readLowSurrogate behind with
        | some (low, behind) => return some (← joinSurrogates code low, behind)
        | none => return none
      else if isLowSurrogate code then return none
      else return (charOf? code).map (·, behind)
    | none => return some (c, chars)
  else return some (shortEscape c, chars)

/-- The characters that a text with escapes stands for. A backslash has to have a character behind
it. -/
def resolve : Nat → List Char → Checked (Option (List Char))
  | 0, _ => breach .rounds
  | _ + 1, [] => return some []
  | rounds + 1, c :: chars =>
    if c = '\\' then
      match chars with
      | [] => breach .backslash
      | d :: chars => do
        match ← readEscape d chars with
        | some (e, chars) => return (← resolve rounds chars).map (e :: ·)
        | none => return none
    else do return (← resolve rounds chars).map (c :: ·)

/-- The contents of a string token. -/
def contents? (token : String) : Checked (Option String) := do
  let bytes := utf8 token.toList
  let inner ← slice bytes 1 (← sub bytes.length 1)
  return (← resolve (bytes.length + 1) inner.toList).map String.ofList

/-- The offset of the last byte of a sort. -/
def lastIndex? (bytes : List UInt8) (byte : UInt8) : Option Nat :=
  (bytes.reverse.idxOf? byte).map (bytes.length - 1 - ·)

/-- The pattern and the flags of a regular expression token, on either side of its last slash. -/
def splitRegex (token : String) : Checked (String × String) := do
  let bytes := utf8 token.toList
  match lastIndex? bytes '/'.toUInt8 with
  | some close => do return (← slice bytes 1 close, ← slice bytes (close + 1) bytes.length)
  | none => breach .slice

/-! Codes -/

theorem hexDigit?_wide (c : Char) (wide : Wide c) : hexDigit? c = none := by
  have beyond {high : Char} (narrow : ¬Wide high) : ¬c ≤ high := by
    intro within
    exact narrow (Nat.le_trans wide within)
  rw [hexDigit?, if_neg fun both => beyond (by decide) both.2,
    if_neg fun both => beyond (by decide) both.2, if_neg fun both => beyond (by decide) both.2]

theorem not_wide_of_hexDigit {c : Char} (digit : (hexDigit? c).isSome = true) : ¬Wide c := by
  intro wide
  rw [hexDigit?_wide c wide] at digit
  cases digit

/-- Bytes at the front of a text that are hexadecimal digits are as many characters. -/
theorem digits_of_bytes {chars : List Char} {count : Nat} (enough : count ≤ (utf8 chars).length)
    (all : ∀ byte ∈ (utf8 chars).take count, (hexDigit? (Char.ofUInt8 byte)).isSome = true) :
    ∃ digits rest, chars = digits ++ rest ∧ digits.length = count ∧ byteCount digits = count := by
  induction count generalizing chars with
  | zero => exact ⟨[], chars, rfl, rfl, rfl⟩
  | succ count ih =>
    cases chars with
    | nil => exact absurd enough (by simp)
    | cons c chars =>
      have blunt : Blunt hexDigit? := .of_const hexDigit?_wide
      obtain ⟨lead, tail, same, -, -⟩ := exists_lead c
      have first : (hexDigit? (Char.ofUInt8 lead)).isSome = true := by
        refine all lead ?_
        rw [utf8_cons, same]
        exact List.mem_cons_self
      have resembles : Resembles (Char.ofUInt8 lead) c :=
        resembles_of_mem (by rw [same]; exact List.mem_cons_self)
      rw [resembles.congr blunt] at first
      have narrow := not_wide_of_hexDigit first
      obtain ⟨own, same, -⟩ := utf8EncodeChar_narrow narrow
      rw [utf8_cons, same, List.singleton_append] at enough all
      rw [List.take_succ_cons] at all
      obtain ⟨digits, rest, rfl, length, bytes⟩ :=
        ih (Nat.le_of_succ_le_succ enough) (List.forall_mem_cons.mp all).2
      refine ⟨c :: digits, rest, rfl, by rw [List.length_cons, length], ?_⟩
      rw [byteCount_cons, bytes, utf8Size_narrow narrow, Nat.add_comm]

theorem le_length_of_slice? {bytes : List UInt8} {start stop : Nat} {text : String}
    (cut : slice? bytes start stop = some text) : stop ≤ bytes.length := by
  unfold slice? at cut
  split at cut
  · rename_i good
    have boundary := good.2.2
    simp only [isBoundary, Bool.or_eq_true, beq_iff_eq, Option.any_eq_true] at boundary
    rcases boundary with (rfl | rfl) | ⟨byte, there, -⟩
    · exact Nat.zero_le _
    · exact Nat.le_refl _
    · exact Nat.le_of_lt (List.getElem?_eq_some_iff.mp there).1
  · cases cut

theorem byteCount_of_digits {digits : List Char}
    (all : ∀ c ∈ digits, (hexDigit? c).isSome = true) : byteCount digits = digits.length := by
  induction digits with
  | nil => rfl
  | cons c digits ih =>
    obtain ⟨first, others⟩ := List.forall_mem_cons.mp all
    rw [byteCount_cons, ih others, utf8Size_narrow (not_wide_of_hexDigit first), List.length_cons,
      Nat.add_comm]

/-- Where characters of one byte each are in front, they are read as digits or are none. -/
theorem readHex_front {digits : List Char} {count : Nat} (length : digits.length = count)
    (bytes : byteCount digits = count) (rest : List Char) :
    readHex (digits ++ rest) count = .ok (MongoShell.readHex count (digits ++ rest)) := by
  have cut : slice? (utf8 (digits ++ rest)) 0 count = some (String.ofList digits) := by
    have whole := slice?_append [] digits rest
    rwa [List.nil_append, List.nil_append, byteCount_nil, bytes] at whole
  have behind : slice (utf8 (digits ++ rest)) count (utf8 (digits ++ rest)).length =
      .ok (String.ofList rest) := by
    have whole := slice_append digits rest []
    rwa [List.append_nil, bytes, ← length_utf8 (digits ++ rest)] at whole
  have own : (utf8 (digits ++ rest)).take count = utf8 digits := by
    rw [utf8_append, ← bytes, ← length_utf8, List.take_left]
  simp only [readHex, cut, behind, own, String.toList_ofList, ok_bind]
  cases value : hexValue? digits with
  | none =>
    have missing : MongoShell.readHex count (digits ++ rest) = none := by
      rw [MongoShell.readHex, ← length, List.take_left, value]
      exact ite_self _
    rw [missing]
    exact ite_self _
  | some code =>
    have hex := (StringLiteral.hexValue?_spec value).2
    have all : (utf8 digits).all fun byte => (hexDigit? (Char.ofUInt8 byte)).isSome := by
      refine List.all_eq_true.mpr fun byte member => ?_
      obtain ⟨c, there, within⟩ := List.mem_flatMap.mp member
      have blunt : Blunt hexDigit? := .of_const hexDigit?_wide
      rw [(resembles_of_mem within).congr blunt]
      exact hex c there
    rw [if_pos all, StringLiteral.readHex_code ⟨length, value⟩]
    rfl

/-- Digits are read from the bytes of a text as they are from its characters. -/
theorem readHex_eq (chars : List Char) (count : Nat) :
    readHex chars count = .ok (MongoShell.readHex count chars) := by
  by_cases front : ∃ digits rest, chars = digits ++ rest ∧ digits.length = count ∧
    byteCount digits = count
  · obtain ⟨digits, rest, rfl, length, bytes⟩ := front
    exact readHex_front length bytes rest
  have missing : MongoShell.readHex count chars = none := by
    unfold MongoShell.readHex
    split
    · rename_i enough
      cases value : hexValue? (chars.take count) with
      | none => rfl
      | some code =>
        have length := List.length_take_of_le enough
        have bytes := byteCount_of_digits (StringLiteral.hexValue?_spec value).2
        exact absurd ⟨_, _, (List.take_append_drop count chars).symm, length, bytes.trans length⟩
          front
    · rfl
  rw [missing, readHex]
  cases cut : slice? (utf8 chars) 0 count with
  | none => rfl
  | some hex =>
    have other : ¬((utf8 chars).take count).all
        (fun byte => (hexDigit? (Char.ofUInt8 byte)).isSome) = true := fun all =>
      front (digits_of_bytes (le_length_of_slice? cut) (List.all_eq_true.mp all))
    simp only [if_neg other]
    rfl

/-- What is read as a code has its digits in front. -/
theorem exists_code {count code : Nat} {text rest : List Char}
    (read : MongoShell.readHex count text = some (code, rest)) :
    ∃ digits, text = digits ++ rest ∧ HexCode count digits code := by
  unfold MongoShell.readHex at read
  split at read
  · rename_i enough
    obtain ⟨value, found, same⟩ := Option.map_eq_some_iff.mp read
    cases same
    exact ⟨_, (List.take_append_drop count text).symm, List.length_take_of_le enough, found⟩
  · cases read

/-! Escapes -/

theorem readLowSurrogate_eq (chars : List Char) :
    readLowSurrogate chars = .ok (StringLiteral.readLowSurrogate chars) := by
  unfold readLowSurrogate
  split
  · rw [readHex_eq]
    rfl
  · rename_i other
    unfold StringLiteral.readLowSurrogate
    split
    · exact absurd rfl (other _)
    · rfl

/-- What is read as a second half is one, given by the code behind the escape. -/
theorem exists_low {text rest : List Char} {low : Nat}
    (read : StringLiteral.readLowSurrogate text = some (low, rest)) :
    isLowSurrogate low = true ∧
      ∃ digits, text = '\\' :: 'u' :: (digits ++ rest) ∧ HexCode 4 digits low := by
  unfold StringLiteral.readLowSurrogate at read
  split at read
  · obtain ⟨found, isLow⟩ := Option.filter_eq_some_iff.mp read
    obtain ⟨digits, rfl, written⟩ := exists_code found
    exact ⟨isLow, digits, rfl, written⟩
  · cases read

theorem charOf?_eq_some {code : Nat} (valid : code < 0xD800 ∨ 0xDFFF < code ∧ code < 0x110000) :
    charOf? code = some (Char.ofNat code) := if_pos valid

/-- Two halves make a code point above U+FFFF, and no step on the way to it leaves 32 bits. -/
theorem joinSurrogates_eq {high low : Nat} (isHigh : isHighSurrogate high = true)
    (isLow : isLowSurrogate low = true) :
    joinSurrogates high low = .ok (Char.ofNat (StringLiteral.joinSurrogates high low)) := by
  simp only [isHighSurrogate, isLowSurrogate, Bool.and_eq_true, decide_eq_true_eq] at isHigh isLow
  rw [joinSurrogates, sub_eq_ok isHigh.1, ok_bind, word_eq_ok (by omega), ok_bind,
    add_eq_ok (by omega), ok_bind, sub_eq_ok isLow.1, ok_bind, add_eq_ok (by omega), ok_bind,
    if_pos (by omega)]
  rfl

theorem readEscape_eq (c : Char) (chars : List Char) :
    readEscape c chars = .ok (StringLiteral.readEscape c chars) := by
  unfold readEscape StringLiteral.readEscape
  by_cases byte : c = 'x'
  · rw [if_pos byte, if_pos byte, readHex_eq, ok_bind]
    cases read : MongoShell.readHex 2 chars with
    | none => rfl
    | some result =>
      obtain ⟨code, rest⟩ := result
      obtain ⟨digits, -, written⟩ := exists_code read
      have small : code < 256 := written.lt
      simp only [charOf?_eq_some (.inl (Nat.lt_trans small (by decide)))]
      rfl
  rw [if_neg byte, if_neg byte]
  by_cases unit : c = 'u'
  · rw [if_pos unit, if_pos unit, readHex_eq, ok_bind]
    cases read : MongoShell.readHex 4 chars with
    | none => rfl
    | some result =>
      obtain ⟨code, rest⟩ := result
      obtain ⟨digits, -, written⟩ := exists_code read
      have small : code < 65536 := written.lt
      by_cases high : isHighSurrogate code = true
      · simp only [if_pos high, readLowSurrogate_eq, ok_bind]
        cases second : StringLiteral.readLowSurrogate rest with
        | none => rfl
        | some result =>
          obtain ⟨low, behind⟩ := result
          simp only [joinSurrogates_eq high (exists_low second).1, ok_bind]
          rfl
      by_cases low : isLowSurrogate code = true
      · simp only [if_neg high, if_pos low]
        rfl
      · have valid : code < 0xD800 ∨ 0xDFFF < code ∧ code < 0x110000 := by
          simp only [isHighSurrogate, isLowSurrogate, Bool.and_eq_true, decide_eq_true_eq]
            at high low
          omega
        simp only [if_neg high, if_neg low, charOf?_eq_some valid]
        rfl
  rw [if_neg unit, if_neg unit]
  rfl

/-- An escape ends where another character may stand between the quotes. -/
theorem inside_behind_escape {quote c d : Char} {text rest : List Char}
    (inside : StringBody quote text) (read : StringLiteral.readEscape c text = some (d, rest)) :
    StringBody quote rest := by
  have behind {count code : Nat} {text rest : List Char} (inside : StringBody quote text)
      (read : MongoShell.readHex count text = some (code, rest)) : StringBody quote rest := by
    obtain ⟨digits, rfl, written⟩ := exists_code read
    exact inside.behind_digits fun c member => (written.plain c member).2.2.1
  unfold StringLiteral.readEscape at read
  split at read
  · split at read
    · rename_i found
      cases read
      exact behind inside found
    · cases read
      exact inside
  split at read
  · split at read
    · rename_i found
      have next := behind inside found
      split at read
      · obtain ⟨⟨low, ahead⟩, second, same⟩ := Option.map_eq_some_iff.mp read
        obtain ⟨-, digits, rfl, written⟩ := exists_low second
        have tail : ahead = rest := congrArg Prod.snd same
        exact tail ▸ StringLiteral.inside_behind_code written next
      · split at read
        · cases read
        · cases read
          exact next
    · cases read
      exact inside
  · cases read
    exact inside

theorem resolve_plain (rounds : Nat) {c : Char} (noBackslash : c ≠ '\\') (chars : List Char) :
    resolve (rounds + 1) (c :: chars) = do return (← resolve rounds chars).map (c :: ·) := by
  rw [resolve.eq_def]
  exact if_neg noBackslash

theorem resolve_escape (rounds : Nat) (d : Char) (chars : List Char) :
    resolve (rounds + 1) ('\\' :: d :: chars) = do
      match ← readEscape d chars with
      | some (e, chars) => return (← resolve rounds chars).map (e :: ·)
      | none => return none := by
  rw [resolve.eq_def]
  exact if_pos rfl

/-- Between the quotes of a string every backslash has its character, so the text is resolved to
what it stands for. -/
theorem resolve_eq {quote : Char} {body : List Char} (inside : StringBody quote body) {rounds : Nat}
    (enough : body.length < rounds) : resolve rounds body = .ok (StringLiteral.decode body) := by
  induction size : body.length using Nat.strong_induction_on generalizing body rounds with
  | _ size ih =>
    subst size
    obtain ⟨left, rfl⟩ : ∃ left, rounds = left + 1 := ⟨rounds - 1, by omega⟩
    cases inside with
    | nil =>
      rw [StringLiteral.decode]
      rfl
    | @plain c body noQuote noBackslash inLine others =>
      rw [List.length_cons] at enough
      rw [resolve_plain left noBackslash,
        ih body.length (Nat.lt_succ_self _) others (Nat.lt_of_succ_lt_succ enough) rfl,
        StringLiteral.decode_plain noBackslash]
      rfl
    | @escape c body others =>
      rw [List.length_cons, List.length_cons] at enough
      rw [resolve_escape, readEscape_eq, ok_bind]
      cases read : StringLiteral.readEscape c body with
      | none =>
        rw [StringLiteral.decode_fails read]
        rfl
      | some result =>
        obtain ⟨d, rest⟩ := result
        have shorter := StringLiteral.readEscape_length read
        have next : resolve left rest = .ok (StringLiteral.decode rest) := by
          refine ih rest.length ?_ (inside_behind_escape others read) (by omega) rfl
          rw [List.length_cons, List.length_cons]
          omega
        simp only [next, StringLiteral.decode_escape read]
        rfl

/-! Tokens -/

/-- The contents of a string token are what stands between its quotes. -/
theorem contents?_eq {text : List Char} (lexeme : Lexeme (.token .string) text) :
    contents? (String.ofList text) = .ok (StringLiteral.contents? (String.ofList text)) := by
  obtain ⟨quote, body, mark, inside, same⟩ := lexeme.exists_quotes
  obtain rfl : text = [quote] ++ (body ++ [quote]) := same
  have one : quote.utf8Size = 1 := by rcases mark with rfl | rfl <;> rfl
  have front : byteCount [quote] = 1 := by rw [byteCount_cons, one, byteCount_nil]
  have upTo : byteCount ([quote] ++ body) = byteCount body + 1 := by
    rw [byteCount_append, front, Nat.add_comm]
  have size : (utf8 ([quote] ++ (body ++ [quote]))).length = byteCount body + 1 + 1 := by
    rw [length_utf8, ← List.append_assoc, byteCount_append, upTo, front]
  have inner : slice (utf8 ([quote] ++ (body ++ [quote]))) 1 (byteCount body + 1) =
      .ok (String.ofList body) := by
    have cut := slice_append [quote] body [quote]
    rwa [upTo, front] at cut
  have enough : body.length < byteCount body + 1 + 1 + 1 := by
    have bound := length_le_byteCount body
    omega
  have own : (([quote] ++ (body ++ [quote])).drop 1).dropLast = body := List.dropLast_concat
  simp only [contents?, StringLiteral.contents?, String.toList_ofList, size, own, inner,
    sub_eq_ok (Nat.le_add_left 1 (byteCount body + 1)), Nat.add_sub_cancel, ok_bind,
    resolve_eq inside enough]
  rfl

theorem lastIndex?_append (front : List UInt8) (byte : UInt8) {back : List UInt8}
    (last : byte ∉ back) : lastIndex? (front ++ byte :: back) byte = some front.length := by
  have none_behind : back.reverse.findIdx? (· == byte) = none := by
    rw [List.findIdx?_eq_none_iff]
    intro other member
    rw [List.mem_reverse] at member
    exact beq_eq_false_iff_ne.mpr fun same => last (same ▸ member)
  have found : (front ++ byte :: back).reverse.idxOf? byte = some back.length := by
    rw [List.reverse_append, List.reverse_cons, List.append_assoc, List.idxOf?,
      List.findIdx?_append,
      none_behind, List.length_reverse, List.singleton_append, List.findIdx?_cons, beq_self_eq_true]
    simp
  rw [lastIndex?, found, Option.map_some, List.length_append, List.length_cons]
  congr 1
  omega

theorem not_mem_utf8_of_isAlpha {flags : List Char} (letters : ∀ c ∈ flags, c.isAlpha) :
    '/'.toUInt8 ∉ utf8 flags := by
  intro member
  obtain ⟨c, there, within⟩ := List.mem_flatMap.mp member
  have slash : c = '/' := ((resembles_of_mem within).eq_iff (by decide)).mp rfl
  have letter := letters c there
  rw [slash] at letter
  cases letter

/-- The last slash of a regular expression is the one behind its pattern. -/
theorem splitRegex_eq {text : List Char} (lexeme : Lexeme (.token .regex) text) :
    splitRegex (String.ofList text) = .ok (MongoShell.splitRegex (String.ofList text)) := by
  obtain ⟨body, flags, letters, rfl⟩ : ∃ body flags, (∀ c ∈ flags, c.isAlpha) ∧
      text = ['/'] ++ (body ++ (['/'] ++ flags)) := by
    cases lexeme.pattern with
    | @mk body flags inside letters => exact ⟨body, flags, letters, rfl⟩
  have slash : byteCount ['/'] = 1 := rfl
  have close : lastIndex? (utf8 (['/'] ++ (body ++ (['/'] ++ flags)))) '/'.toUInt8 =
      some (byteCount (['/'] ++ body)) := by
    have found := lastIndex?_append (utf8 (['/'] ++ body)) '/'.toUInt8
      (not_mem_utf8_of_isAlpha letters)
    rwa [length_utf8, show '/'.toUInt8 :: utf8 flags = utf8 (['/'] ++ flags) from rfl,
      ← utf8_append,
      List.append_assoc] at found
  have pattern := slice_append ['/'] body (['/'] ++ flags)
  have behind := slice_append (['/'] ++ body ++ ['/']) flags []
  rw [slash] at pattern
  rw [List.append_nil, byteCount_append (['/'] ++ body), slash, ← length_utf8 (_ ++ flags),
    List.append_assoc, List.append_assoc] at behind
  have parts : MongoShell.splitRegex (String.ofList (['/'] ++ (body ++ (['/'] ++ flags)))) =
      (String.ofList body, String.ofList flags) := splitRegex_literal letters
  rw [parts, splitRegex]
  simp only [String.toList_ofList, close, pattern, behind, ok_bind]
  rfl

end MongoShell.Checked
