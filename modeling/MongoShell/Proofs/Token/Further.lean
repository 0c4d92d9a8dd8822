import MongoShell.Proofs.Token.Excerpt

/-! A text that stands further down. Behind some whole lines a text is scanned into the same tokens,
further by the bytes and the lines in front of it and in the columns where they were, or fails where
it failed. So a span cuts the same out of a source as its image does behind more text. -/

namespace MongoShell

/-! Down by some bytes and some lines -/

def Position.down (bytes lines : Nat) (place : Position) : Position :=
  ⟨place.offset + bytes, place.line + lines, place.column⟩

def Span.down (bytes lines : Nat) (span : Span) : Span :=
  ⟨span.start + bytes, span.stop + bytes, span.line + lines, span.column⟩

def Token.down (bytes lines : Nat) (t : Token) : Token :=
  ⟨t.kind, t.text, t.span.down bytes lines⟩

def SyntaxError.down (lines : Nat) (e : SyntaxError) : SyntaxError :=
  ⟨e.line + lines, e.column, e.fault⟩

section Down

variable (bytes lines : Nat)

theorem Position.next_down (place : Position) (c : Char) :
    (place.down bytes lines).next c = (place.next c).down bytes lines := by
  unfold next down
  split <;> simp only [Position.mk.injEq, and_true] <;> omega

theorem Position.after_down (place : Position) (text : List Char) :
    (place.down bytes lines).after text = (place.after text).down bytes lines := by
  induction text generalizing place with
  | nil => rfl
  | cons c text ih => rw [after_cons, next_down, ih, after_cons]

@[simp] theorem Token.word_down (t : Token) : (t.down bytes lines).word = t.word := rfl

theorem Span.through_down (first last : Span) :
    (first.down bytes lines).through (last.down bytes lines) =
      (first.through last).down bytes lines := by
  simp only [through, down, Span.mk.injEq, and_true, true_and]
  omega

/-- A text further down is scanned into the same tokens further down, or fails further down. -/
theorem scanFrom_down (place : Position) (text : List Char) :
    scanFrom (place.down bytes lines) text =
      ((scanFrom place text).map (List.map (Token.down bytes lines))).mapError
        (SyntaxError.down lines) := by
  induction size : text.length using Nat.strong_induction_on generalizing place text with
  | _ size ih =>
    subst size
    cases text with
    | nil =>
      rw [scanFrom, scanFrom]
      rfl
    | cons c text =>
      cases read : front c text with
      | error fault =>
        rw [scanFrom_fault read, scanFrom_fault read]
        rfl
      | ok result =>
        have shorter := front_rest_lt read
        obtain ⟨same, starts⟩ := starts_of_front read
        obtain ⟨sort, piece, rest⟩ := result
        simp only at same starts shorter
        have further := ih rest.length shorter (place.after piece) rest rfl
        rw [same]
        cases sort with
        | trivia =>
          rw [scanFrom_trivia starts, scanFrom_trivia starts, Position.after_down, further]
        | token kind =>
          rw [scanFrom_token starts, scanFrom_token starts, Position.after_down, further]
          cases scanFrom (place.after piece) rest <;> rfl

end Down

theorem Position.line_after (place : Position) (text : List Char) :
    (place.after text).line = place.line + text.count '\n' := by
  induction text generalizing place with
  | nil => rfl
  | cons c text ih =>
    rw [after_cons, ih, List.count_cons]
    unfold next
    by_cases feed : c = '\n'
    · simp only [feed, if_true, beq_self_eq_true]
      omega
    · simp [feed]

/-- The start of the line behind some whole lines is the start of a text further down. -/
theorem Position.after_lines (text : List Char) :
    Position.start.after (text ++ ['\n']) =
      Position.start.down (byteCount (text ++ ['\n'])) ((text ++ ['\n']).count '\n') := by
  have offset := Position.start.offset_after (text ++ ['\n'])
  have lines := Position.start.line_after (text ++ ['\n'])
  have column : (Position.start.after (text ++ ['\n'])).column = 1 := by
    rw [after_append]
    rfl
  generalize Position.start.after (text ++ ['\n']) = place at offset lines column
  obtain ⟨_, _, _⟩ := place
  simp only at offset lines column
  subst offset lines column
  rfl

/-! What the spans cut out -/

theorem dropBytes_add (front text : List Char) (count : Nat) :
    dropBytes (count + byteCount front) (front ++ text) = dropBytes count text := by
  induction front with
  | nil => rfl
  | cons c front ih =>
    have positive := c.utf8Size_pos
    have left : count + byteCount (c :: front) - c.utf8Size = count + byteCount front := by
      rw [byteCount_cons]
      omega
    rw [List.cons_append, dropBytes, byteCount_cons, if_neg (by omega), ← byteCount_cons, left, ih]

theorem takeBytes_of_le {count : Nat} {text : List Char} (within : count ≤ byteCount text)
    (more : List Char) : takeBytes count (text ++ more) = takeBytes count text := by
  induction text generalizing count with
  | nil =>
    obtain rfl : count = 0 := Nat.le_zero.mp within
    cases more <;> rfl
  | cons c text ih =>
    rw [byteCount_cons] at within
    rw [List.cons_append, takeBytes, takeBytes, ih (by omega)]

/-- A span further down cuts the same out, behind the text that moved it there. -/
theorem Span.slice_down (span : Span) (lines : Nat) (front text : List Char) :
    (span.down (byteCount front) lines).slice (front ++ text) = span.slice text := by
  simp only [slice, down, dropBytes_add, Nat.add_sub_add_right]

/-- A token lies within a text: it starts between two characters of it, and stops no later than it.
-/
def Token.Within (text : List Char) (t : Token) : Prop :=
  (∃ front back, text = front ++ back ∧ t.span.start = byteCount front) ∧
    t.span.stop ≤ byteCount text

/-- What is behind the tokens of a text is no matter to what is cut out there. -/
theorem Token.Within.slice_append {text : List Char} {first last : Token}
    (firsts : first.Within text) (lasts : last.Within text) (more : List Char) :
    (first.span.through last.span).slice (text ++ more) =
      (first.span.through last.span).slice text := by
  obtain ⟨⟨front, back, rfl, start⟩, stop⟩ := firsts
  have later := lasts.2
  rw [byteCount_append] at stop later
  have short : max last.span.stop first.span.stop - byteCount front ≤ byteCount back := by omega
  rw [Span.slice, Span.slice, Span.through, start, List.append_assoc, dropBytes_append,
    dropBytes_append, takeBytes_of_le short]

theorem Stretch.within {text rest : List Char} {tokens : List Token}
    (stretch : Stretch .start text rest tokens) {t : Token} (member : t ∈ tokens) :
    t.Within text := by
  obtain ⟨before, behind, rfl⟩ := List.append_of_mem member
  have stop := stretch.stop_le member
  obtain ⟨front, back, rfl, -, -, start⟩ := stretch.skip rfl
  rw [Position.offset_start] at start stop
  exact ⟨⟨front, back, rfl, start⟩, stop⟩

end MongoShell
