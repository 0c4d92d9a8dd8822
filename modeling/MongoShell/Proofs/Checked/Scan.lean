import MongoShell.Proofs.Checked.Access
import MongoShell.Proofs.Token.Excerpt

/-! Scanning by bytes. The source is taken as the bytes of its UTF-8 form, a place moves one byte at
a time, every byte is fetched by its offset, and the texts that errors show are cut out by theirs.
Each of these steps is checked, and each loop has a bound on its rounds. On a source whose offsets
fit in 32 bits none of them fails: the tokens and the refusals are those of the scanner over
characters. -/

namespace MongoShell

/-- A token without its text, which its span recovers from the source. -/
structure BareToken where
  kind : TokenKind
  span : Span
deriving DecidableEq, Repr

abbrev Token.bare (t : Token) : BareToken := ⟨t.kind, t.span⟩

namespace Checked

section Scanner

variable (bytes : List UInt8)

/-- The byte so far ahead of a place, as a character. Bytes beyond ASCII look like characters there,
which no token knows. -/
def peek (place : Position) (ahead : Nat) : Option Char :=
  bytes[place.offset + ahead]?.map Char.ofUInt8

/-- One byte further. Bytes that continue a character fill no column. -/
def bump (place : Position) : Checked Position := do
  let byte ← get bytes place.offset
  if Char.ofUInt8 byte = '\n' then
    return ⟨place.offset + 1, ← add place.line 1, 1⟩
  else if isContinuation byte then
    return ⟨place.offset + 1, place.line, place.column⟩
  else
    return ⟨place.offset + 1, place.line, ← add place.column 1⟩

/-- The range from a start to the place at hand. -/
def spanFrom (start place : Position) : Checked Span := do
  return ⟨← word start.offset, ← word place.offset, start.line, start.column⟩

/-- What is wrong with the text from a start to the place at hand. -/
def refuseFrom {α : Type} (start place : Position) (fault : SyntaxFault) : Checked α := do
  refuse (.under (← spanFrom start place) fault)

/-- The text from a start to the place at hand. -/
def textFrom (start place : Position) : Checked String := do
  let span ← spanFrom start place
  slice bytes span.start span.stop

/-- Pass over bytes as long as they pass a test. -/
def skipWhile (p : UInt8 → Bool) : Nat → Position → Checked Position
  | 0, _ => breach .rounds
  | rounds + 1, place =>
    match bytes[place.offset]? with
    | none => return place
    | some byte => if p byte then do skipWhile p rounds (← bump bytes place) else return place

def skip (q : Char → Bool) (place : Position) : Checked Position :=
  skipWhile bytes (fun byte => q (Char.ofUInt8 byte)) (bytes.length + 1) place

def scanFraction (place : Position) : Checked Position :=
  if peek bytes place 0 = some '.' ∧ (peek bytes place 1).any Char.isDigit then do
    skip bytes Char.isDigit (← bump bytes place)
  else return place

def scanSign (place : Position) : Checked Position :=
  if (peek bytes place 0).any fun c => c == '+' || c == '-' then bump bytes place else return place

/-- An exponent whose digits go from one place to another; there have to be some. -/
def closeExponent (start signed behind : Position) : Checked Position :=
  if behind.offset = signed.offset then do
    refuseFrom start behind (.bareExponent (← textFrom bytes start behind))
  else return behind

/-- The exponent of the number that began at `start`, if there is one. -/
def scanExponent (start place : Position) : Checked Position :=
  if (peek bytes place 0).any fun c => c == 'e' || c == 'E' then do
    let signed ← scanSign bytes (← bump bytes place)
    closeExponent bytes start signed (← skip bytes Char.isDigit signed)
  else return place

def scanNumber (start : Position) : Checked Position := do
  scanExponent bytes start (← scanFraction bytes (← skip bytes Char.isDigit start))

/-- The rest of the string that began at `start`. A backslash takes along the next byte, whatever it
is; what then remains of a character is like any other byte. -/
def passString (start : Position) (quote : Char) : Nat → Position → Checked Position
  | 0, _ => breach .rounds
  | rounds + 1, place =>
    match peek bytes place 0 with
    | none => refuseFrom start place (.unclosedString quote)
    | some c =>
      if c = '\n' then refuseFrom start place (.unclosedString quote)
      else if c = '\\' then do
        let behind ← bump bytes place
        if (peek bytes behind 0).isSome then
          passString start quote rounds (← bump bytes behind)
        else passString start quote rounds behind
      else if c = quote then bump bytes place
      else do passString start quote rounds (← bump bytes place)

def scanString (start : Position) (quote : Char) : Checked Position := do
  passString bytes start quote (bytes.length + 1) (← bump bytes start)

/-- The rest of the pattern that began at `start`. A backslash takes along the next byte, unless it
ends the line. -/
def passRegex (start : Position) : Bool → Nat → Position → Checked Position
  | _, 0, _ => breach .rounds
  | inClass, rounds + 1, place =>
    match peek bytes place 0 with
    | none => refuseFrom start place .unclosedRegex
    | some c =>
      if c = '\n' then refuseFrom start place .unclosedRegex
      else if c = '\\' then do
        let behind ← bump bytes place
        if (peek bytes behind 0).any (· != '\n') then
          passRegex start inClass rounds (← bump bytes behind)
        else passRegex start inClass rounds behind
      else if c = '[' then do passRegex start true rounds (← bump bytes place)
      else if c = ']' then do passRegex start false rounds (← bump bytes place)
      else if c = '/' ∧ inClass = false then bump bytes place
      else do passRegex start inClass rounds (← bump bytes place)

def scanRegex (start : Position) : Checked Position := do
  let behind ← passRegex bytes start false (bytes.length + 1) (← bump bytes start)
  skip bytes Char.isAlpha behind

/-- The rest of the comment that began at `start`. -/
def passComment (start : Position) : Nat → Position → Checked Position
  | 0, _ => breach .rounds
  | rounds + 1, place =>
    if place.offset < bytes.length then
      if peek bytes place 0 = some '*' ∧ peek bytes place 1 = some '/' then do
        bump bytes (← bump bytes place)
      else do passComment start rounds (← bump bytes place)
    else refuseFrom start place .unclosedComment

def scanComment (start : Position) : Checked Position := do
  passComment bytes start (bytes.length + 1) (← bump bytes (← bump bytes start))

/-- Refuse a character that no token starts with. All its bytes are taken, so that the text shown is
one character. -/
def scanStray {α : Type} (start : Position) : Checked α := do
  let behind ← skipWhile bytes isContinuation (bytes.length + 1) (← bump bytes start)
  match (← textFrom bytes start behind).toList with
  | [c] => refuseFrom start behind (.strayCharacter c)
  | _ => breach .slice

/-- The comment or the pattern that a slash opens. -/
def scanSlash (start : Position) : Checked (Piece × Position) :=
  if peek bytes start 1 = some '/' then do return (.trivia, ← skip bytes (· != '\n') start)
  else if peek bytes start 1 = some '*' then do return (.trivia, ← scanComment bytes start)
  else do return (.token .regex, ← scanRegex bytes start)

/-- The piece at a place where the first byte looks like `c`, and the place behind it. -/
def scanPiece (start : Position) (c : Char) : Checked (Piece × Position) :=
  if isIdentifierStart c then do
    return (.token .identifier, ← skip bytes isIdentifierPart start)
  else if c.isDigit then do
    return (.token .number, ← scanNumber bytes start)
  else if c = '"' || c = '\'' then do
    return (.token .string, ← scanString bytes start c)
  else if c = '/' then scanSlash bytes start
  else if isBlank c then do return (.trivia, ← bump bytes start)
  else
    match TokenKind.ofMark? c with
    | some kind => do return (.token kind, ← bump bytes start)
    | none => scanStray bytes start

/-- The tokens from a place on. -/
def scanAll : Nat → Position → Checked (List BareToken)
  | 0, _ => breach .rounds
  | rounds + 1, place =>
    if place.offset < bytes.length then do
      let byte ← get bytes place.offset
      let (piece, behind) ← scanPiece bytes place (Char.ofUInt8 byte)
      match piece with
      | .trivia => scanAll rounds behind
      | .token kind => do
        let span ← spanFrom place behind
        return ⟨kind, span⟩ :: (← scanAll rounds behind)
    else do return [⟨.endOfInput, ← spanFrom place place⟩]

def tokens : Checked (List BareToken) := scanAll bytes (bytes.length + 1) .start

end Scanner

/-! Places -/

/-- The place behind one more byte. -/
def nextByte (place : Position) (byte : UInt8) : Position :=
  if Char.ofUInt8 byte = '\n' then ⟨place.offset + 1, place.line + 1, 1⟩
  else if isContinuation byte then ⟨place.offset + 1, place.line, place.column⟩
  else ⟨place.offset + 1, place.line, place.column + 1⟩

/-- So many bytes of a source remain at a place, and its line and column are no further than the
offset can have led. -/
structure At (bytes : List UInt8) (place : Position) (rest : List UInt8) : Prop where
  drop_eq : bytes.drop place.offset = rest
  inside : place.offset ≤ bytes.length
  line_le : place.line ≤ place.offset + 1
  column_le : place.column ≤ place.offset + 1

theorem foldl_continuation {tail : List UInt8}
    (continues : ∀ byte ∈ tail, isContinuation byte = true)
    (place : Position) :
    tail.foldl nextByte place = ⟨place.offset + tail.length, place.line, place.column⟩ := by
  induction tail generalizing place with
  | nil => rfl
  | cons byte tail ih =>
    obtain ⟨first, others⟩ := List.forall_mem_cons.mp continues
    have noFeed : Char.ofUInt8 byte ≠ '\n' := by
      intro feed
      have wide := wide_of_isContinuation first
      rw [feed] at wide
      exact absurd wide (by decide)
    rw [List.foldl_cons, ih others, nextByte, if_neg noFeed, if_pos first, List.length_cons,
      Nat.add_assoc, Nat.add_comm 1]

/-- Byte by byte a place gets to where it gets character by character. -/
theorem foldl_nextByte (place : Position) (c : Char) :
    (String.utf8EncodeChar c).foldl nextByte place = place.next c := by
  have size := String.length_utf8EncodeChar c
  by_cases wide : Wide c
  · obtain ⟨lead, tail, same, bound, continues⟩ := utf8EncodeChar_wide wide
    have noFeed : Char.ofUInt8 lead ≠ '\n' := by
      intro feed
      have code := congrArg Char.toNat feed
      rw [toNat_ofUInt8] at code
      have : '\n'.toNat = 10 := rfl
      omega
    have leads : ¬isContinuation lead = true := by
      rw [isContinuation_iff]
      omega
    have noFeed' : c ≠ '\n' := by
      rintro rfl
      exact absurd wide (by decide)
    rw [same, List.length_cons] at size
    rw [same, List.foldl_cons, nextByte, if_neg noFeed, if_neg leads, foldl_continuation continues,
      Position.next, if_neg noFeed', ← size, Nat.add_assoc, Nat.add_comm 1]
  · obtain ⟨own, same, rfl⟩ := utf8EncodeChar_narrow wide
    have leads : ¬isContinuation own = true := fun continues =>
      wide (wide_of_isContinuation continues)
    rw [same, List.length_singleton] at size
    rw [same, List.foldl_cons, List.foldl_nil, nextByte, if_neg leads, Position.next, ← size]

section Places

variable {bytes rest : List UInt8} {place : Position} {c : Char} {text more : List Char}

namespace At

theorem of_start (bytes : List UInt8) : At bytes .start bytes where
  drop_eq := rfl
  inside := Nat.zero_le _
  line_le := Nat.le_refl _
  column_le := Nat.le_refl _

theorem length_eq (here : At bytes place rest) : place.offset + rest.length = bytes.length := by
  have same := congrArg List.length here.drop_eq
  have inside := here.inside
  rw [List.length_drop] at same
  omega

theorem getElem?_zero {byte : UInt8} (here : At bytes place (byte :: rest)) :
    bytes[place.offset]? = some byte := by
  have same := congrArg List.head? here.drop_eq
  rwa [List.head?_drop] at same

theorem getElem?_nil (here : At bytes place []) : bytes[place.offset]? = none := by
  have same := congrArg List.head? here.drop_eq
  rwa [List.head?_drop] at same

theorem nextByte {byte : UInt8} (here : At bytes place (byte :: rest)) :
    At bytes (nextByte place byte) rest := by
  have whole := here.length_eq
  have tail : bytes.drop (place.offset + 1) = rest := by
    rw [← List.drop_drop, here.drop_eq]
    rfl
  have line := here.line_le
  have column := here.column_le
  rw [List.length_cons] at whole
  unfold Checked.nextByte
  split
  · exact ⟨tail, by simp only; omega, by simp only; omega, by simp only; omega⟩
  split
  · exact ⟨tail, by simp only; omega, by simp only; omega, by simp only; omega⟩
  · exact ⟨tail, by simp only; omega, by simp only; omega, by simp only; omega⟩

theorem foldl {own : List UInt8} (here : At bytes place (own ++ rest)) :
    At bytes (own.foldl Checked.nextByte place) rest := by
  induction own generalizing place with
  | nil => exact here
  | cons byte own ih => exact ih here.nextByte

theorem next (here : At bytes place (utf8 (c :: text))) : At bytes (place.next c) (utf8 text) := by
  rw [utf8_cons] at here
  rw [← foldl_nextByte]
  exact here.foldl

theorem after (here : At bytes place (utf8 (text ++ more))) :
    At bytes (place.after text) (utf8 more) := by
  induction text generalizing place with
  | nil => exact here
  | cons c text ih => exact ih here.next

end At

/-! Single steps -/

theorem peek_nil (here : At bytes place []) (ahead : Nat) : peek bytes place ahead = none := by
  have whole := here.length_eq
  rw [peek, List.getElem?_eq_none (by rw [List.length_nil] at whole; omega), Option.map_none]

/-- The byte at a place resembles the character there. -/
theorem exists_peek (here : At bytes place (utf8 (c :: text))) :
    ∃ d, peek bytes place 0 = some d ∧ Resembles d c := by
  obtain ⟨lead, tail, same, -, -⟩ := exists_lead c
  rw [utf8_cons, same] at here
  refine ⟨Char.ofUInt8 lead, ?_, resembles_of_mem (by rw [same]; exact List.mem_cons_self)⟩
  rw [peek, Nat.add_zero, here.getElem?_zero, Option.map_some]

/-- Behind a character in ASCII the next byte is the first one of what follows. -/
theorem peek_one (narrow : ¬Wide c) (place : Position) :
    peek bytes place 1 = peek bytes (place.next c) 0 := by
  have offset : (place.next c).offset = place.offset + 1 := by
    rw [Position.next]
    split <;> rw [utf8Size_narrow narrow]
  rw [peek, peek, offset, Nat.add_zero]

/-- What a blunt test says of the byte at a place, it says of the character there. -/
theorem any_peek {f : Char → Bool} (blunt : Blunt f) (here : At bytes place (utf8 text)) :
    (peek bytes place 0).any f = text.head?.any f := by
  cases text with
  | nil => rw [peek_nil here]; rfl
  | cons c text =>
    obtain ⟨d, shown, resembles⟩ := exists_peek here
    rw [shown, Option.any_some, resembles.congr blunt]
    rfl

theorem peek_eq_some_iff (here : At bytes place (utf8 text)) {x : Char} (narrow : ¬Wide x) :
    peek bytes place 0 = some x ↔ text.head? = some x := by
  cases text with
  | nil => rw [peek_nil here]; rfl
  | cons c text =>
    obtain ⟨d, shown, resembles⟩ := exists_peek here
    rw [shown, List.head?_cons, Option.some.injEq, Option.some.injEq, resembles.eq_iff narrow]

end Places

end Checked

end MongoShell
