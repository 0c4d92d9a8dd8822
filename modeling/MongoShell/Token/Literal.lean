import MongoShell.Bytes.Hex
import MongoShell.Token

/-!
What the text of a literal token stands for: the characters of a string with its escapes resolved,
and the pattern and flags of a regular expression.
-/

namespace MongoShell

/-- The number written by the first `count` characters and what follows them; nothing is read unless
all of them are there and are hexadecimal digits. -/
def readHex (count : Nat) (text : List Char) : Option (Nat × List Char) :=
  if count ≤ text.length then (hexValue? (text.take count)).map (·, text.drop count) else none

namespace StringLiteral

/-- The character that a backslash and one letter stand for; most letters stand for themselves. -/
def shortEscape : Char → Char
  | 'n' => '\n'
  | 't' => '\t'
  | 'r' => '\r'
  | 'b' => '\x08'
  | 'f' => '\x0c'
  | 'v' => '\x0b'
  | '0' => '\x00'
  | c => c

def isHighSurrogate (code : Nat) : Bool := 0xD800 ≤ code && code ≤ 0xDBFF

def isLowSurrogate (code : Nat) : Bool := 0xDC00 ≤ code && code ≤ 0xDFFF

/-- The code point above U+FFFF that a pair of surrogates writes. -/
def joinSurrogates (high low : Nat) : Nat := 0x10000 + (high - 0xD800) * 0x400 + (low - 0xDC00)

/-- A second half of a surrogate pair, written as an escape of its own. -/
def readLowSurrogate : List Char → Option (Nat × List Char)
  | '\\' :: 'u' :: text => (readHex 4 text).filter (isLowSurrogate ·.1)
  | _ => none

/-- The character that an escape stands for, and what follows the escape; `c` is the character
behind the backslash. A code escape without its digits is the letter itself. There is no character
for half a surrogate pair. -/
def readEscape (c : Char) (text : List Char) : Option (Char × List Char) :=
  if c = 'x' then
    match readHex 2 text with
    | some (code, rest) => some (Char.ofNat code, rest)
    | none => some (c, text)
  else if c = 'u' then
    match readHex 4 text with
    | some (code, rest) =>
      if isHighSurrogate code then
        (readLowSurrogate rest).map fun (low, rest) => (Char.ofNat (joinSurrogates code low), rest)
      else if isLowSurrogate code then none
      else some (Char.ofNat code, rest)
    | none => some (c, text)
  else some (shortEscape c, text)

theorem readHex_length {count : Nat} {text rest : List Char} {code : Nat}
    (read : readHex count text = some (code, rest)) : rest.length ≤ text.length := by
  unfold readHex at read
  split at read
  · obtain ⟨value, _, same⟩ := Option.map_eq_some_iff.mp read
    cases same
    simp
  · cases read

theorem readLowSurrogate_length {text rest : List Char} {code : Nat}
    (read : readLowSurrogate text = some (code, rest)) : rest.length ≤ text.length := by
  unfold readLowSurrogate at read
  split at read
  · have bound := readHex_length (Option.filter_eq_some_iff.mp read).1
    simp only [List.length_cons]
    omega
  · cases read

theorem readEscape_length {c d : Char} {text rest : List Char}
    (read : readEscape c text = some (d, rest)) : rest.length ≤ text.length := by
  unfold readEscape at read
  split at read
  · split at read
    · rename_i found
      cases read
      exact readHex_length found
    · cases read
      exact Nat.le_refl _
  split at read
  · split at read
    · rename_i found
      have bound := readHex_length found
      split at read
      · obtain ⟨⟨low, behind⟩, lowFound, same⟩ := Option.map_eq_some_iff.mp read
        have tail : behind = rest := congrArg Prod.snd same
        exact Nat.le_trans (tail ▸ readLowSurrogate_length lowFound) bound
      · split at read
        · cases read
        · cases read
          exact bound
    · cases read
      exact Nat.le_refl _
  · cases read
    exact Nat.le_refl _

/-- The characters that the text between the quotes stands for, unless a code escape in it names
half a surrogate pair. -/
def decode : List Char → Option (List Char)
  | [] => some []
  | [c] => some [c]
  | c :: d :: text =>
    if c = '\\' then
      match read : readEscape d text with
      | some (e, rest) =>
        have : rest.length ≤ text.length := readEscape_length read
        (decode rest).map (e :: ·)
      | none => none
    else (decode (d :: text)).map (c :: ·)
termination_by text => text.length

/-- The contents of a string token, quotes included in its text. -/
def contents? (literal : String) : Option String :=
  (decode (literal.toList.drop 1).dropLast).map String.ofList

end StringLiteral

/-- The pattern and the flags of a regular expression token; the last slash parts them. -/
def splitRegex (literal : String) : String × String :=
  let backwards := literal.toList.reverse
  let flags := backwards.takeWhile (· != '/')
  let pattern := (backwards.dropWhile (· != '/')).drop 1
  (String.ofList (pattern.reverse.drop 1), String.ofList flags.reverse)

end MongoShell
