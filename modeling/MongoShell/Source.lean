/-!
Places and ranges in a statement text. A text is a list of characters; a place counts the bytes of
its UTF-8 form, and a line and a column, both from one, the column in characters.

The counts are unbounded, where a running program keeps them in 32 bits. On a text of fewer than
2 ^ 32 - 1 bytes the two readings agree: `MongoShell.Proofs.Checked.Script` reads a script with
every sum checked against 32 bits, and comes to the same statements or the same error with no sum
out of range.
-/

namespace MongoShell

/-- A place between two characters of a text. -/
structure Position where
  offset : Nat
  line : Nat
  column : Nat
deriving DecidableEq, Repr

namespace Position

/-- The place before the first character. -/
def start : Position := ⟨0, 1, 1⟩

/-- The place behind one more character. A line feed opens the next line; every other character,
tabs and carriage returns included, fills one column. -/
def next (place : Position) (c : Char) : Position :=
  if c = '\n' then ⟨place.offset + c.utf8Size, place.line + 1, 1⟩
  else ⟨place.offset + c.utf8Size, place.line, place.column + 1⟩

/-- The place behind a stretch of text. -/
def after (place : Position) (text : List Char) : Position := text.foldl next place

@[simp] theorem after_nil (place : Position) : place.after [] = place := rfl

@[simp] theorem after_cons (place : Position) (c : Char) (text : List Char) :
    place.after (c :: text) = (place.next c).after text := rfl

theorem after_append (place : Position) (first second : List Char) :
    place.after (first ++ second) = (place.after first).after second := List.foldl_append

end Position

/-- A range of bytes, with the line and column of its first character. -/
structure Span where
  start : Nat
  stop : Nat
  line : Nat
  column : Nat
deriving DecidableEq, Repr

namespace Span

/-- The range from one place to a later one. -/
def between (first last : Position) : Span := ⟨first.offset, last.offset, first.line, first.column⟩

/-- The range from the start of one span through the end of another, which is never shorter than
the first. -/
def through (first last : Span) : Span :=
  ⟨first.start, max last.stop first.stop, first.line, first.column⟩

end Span

/-- The bytes that a stretch of text takes in UTF-8. -/
def byteCount : List Char → Nat
  | [] => 0
  | c :: text => c.utf8Size + byteCount text

@[simp] theorem byteCount_nil : byteCount [] = 0 := rfl

@[simp] theorem byteCount_cons (c : Char) (text : List Char) :
    byteCount (c :: text) = c.utf8Size + byteCount text := rfl

@[simp] theorem byteCount_append (first second : List Char) :
    byteCount (first ++ second) = byteCount first + byteCount second := by
  induction first with
  | nil => simp
  | cons c first ih => simp only [List.cons_append, byteCount_cons, ih, Nat.add_assoc]

theorem length_le_byteCount (text : List Char) : text.length ≤ byteCount text := by
  induction text with
  | nil => exact Nat.le_refl 0
  | cons c text ih =>
    have positive := c.utf8Size_pos
    rw [List.length_cons, byteCount_cons]
    omega

theorem byteCount_toList (source : String) : byteCount source.toList = source.utf8ByteSize := by
  rw [← String.ofList_toList (s := source)]
  generalize source.toList = text
  induction text with
  | nil => rfl
  | cons c text ih =>
    rw [String.toList_ofList] at ih ⊢
    rw [byteCount_cons, ih]
    simp [String.ofList_cons]

theorem Position.offset_after (place : Position) (text : List Char) :
    (place.after text).offset = place.offset + byteCount text := by
  induction text generalizing place with
  | nil => simp
  | cons c text ih =>
    rw [after_cons, ih, byteCount_cons]
    unfold Position.next
    split <;> simp only [Nat.add_assoc]

/-- What remains of a text behind its first `count` bytes. -/
def dropBytes (count : Nat) : List Char → List Char
  | [] => []
  | c :: text => if count = 0 then c :: text else dropBytes (count - c.utf8Size) text

/-- The first `count` bytes of a text. -/
def takeBytes (count : Nat) : List Char → List Char
  | [] => []
  | c :: text => if count = 0 then [] else c :: takeBytes (count - c.utf8Size) text

/-- The stretch of the source under a span. -/
def Span.slice (span : Span) (source : List Char) : List Char :=
  takeBytes (span.stop - span.start) (dropBytes span.start source)

theorem dropBytes_append (first second : List Char) :
    dropBytes (byteCount first) (first ++ second) = second := by
  induction first with
  | nil => cases second <;> simp [dropBytes]
  | cons c first ih =>
    have positive := c.utf8Size_pos
    rw [List.cons_append, dropBytes, byteCount_cons, if_neg (by omega), Nat.add_sub_cancel_left, ih]

theorem takeBytes_append (first second : List Char) :
    takeBytes (byteCount first) (first ++ second) = first := by
  induction first with
  | nil => cases second <;> simp [takeBytes]
  | cons c first ih =>
    have positive := c.utf8Size_pos
    rw [List.cons_append, takeBytes, byteCount_cons, if_neg (by omega), Nat.add_sub_cancel_left, ih]

/-- A span around the middle of a text cuts out exactly that middle. -/
theorem Span.slice_append (line column : Nat) (before middle behind : List Char) :
    Span.slice ⟨byteCount before, byteCount before + byteCount middle, line, column⟩
      (before ++ (middle ++ behind)) = middle := by
  rw [Span.slice, dropBytes_append, Nat.add_sub_cancel_left, takeBytes_append]

end MongoShell
