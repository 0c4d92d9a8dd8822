import MongoShell.Proofs.Checked.Scan
import MongoShell.Proofs.Expr.Names
import MongoShell.Proofs.Token.Lexeme

/-! The loops of the checked scanner. Each loop over the bytes is taken through the text character
by character: a character in ASCII is one byte, and the bytes of any other are ones that the loop
passes over or that stop it at once, since it cannot tell them apart. So a loop gets through what
the scanner over characters cuts off. -/

namespace MongoShell.Checked

variable {bytes rest : List UInt8} {start place : Position} {c : Char} {text more : List Char}

/-! Characters beyond ASCII are of no class that the scanner knows -/

theorem isDigit_wide (c : Char) (wide : Wide c) : c.isDigit = false := by
  refine Bool.eq_false_iff.mpr fun digit => ?_
  have range := Char.isDigit_iff_toNat.mp digit
  have top : '9'.toNat = 57 := rfl
  have beyond : 0x80 ≤ c.toNat := wide
  omega

theorem isAlpha_wide (c : Char) (wide : Wide c) : c.isAlpha = false := by
  refine Bool.eq_false_iff.mpr fun letter => ?_
  have beyond : 0x80 ≤ c.val.toNat := wide
  simp only [Char.isAlpha, Char.isUpper, Char.isLower, Bool.or_eq_true, Bool.and_eq_true,
    decide_eq_true_eq, ge_iff_le, UInt32.le_iff_toNat_le] at letter
  have upper : 'Z'.val.toNat = 90 := rfl
  have lower : 'z'.val.toNat = 122 := rfl
  omega

theorem beq_wide {x : Char} (narrow : ¬Wide x) (c : Char) (wide : Wide c) : (c == x) = false := by
  refine beq_eq_false_iff_ne.mpr ?_
  rintro rfl
  exact narrow wide

theorem isIdentifierStart_wide (c : Char) (wide : Wide c) : isIdentifierStart c = false := by
  simp [isIdentifierStart, isAlpha_wide c wide, beq_wide (x := '_') (by decide) c wide,
    beq_wide (x := '$') (by decide) c wide]

theorem isIdentifierPart_wide (c : Char) (wide : Wide c) : isIdentifierPart c = false := by
  simp [isIdentifierPart, Char.isAlphanum, isAlpha_wide c wide, isDigit_wide c wide,
    beq_wide (x := '_') (by decide) c wide, beq_wide (x := '$') (by decide) c wide]

theorem isBlank_wide (c : Char) (wide : Wide c) : isBlank c = false := by
  simp [isBlank, beq_wide (x := ' ') (by decide) c wide, beq_wide (x := '\t') (by decide) c wide,
    beq_wide (x := '\r') (by decide) c wide, beq_wide (x := '\n') (by decide) c wide]

theorem ofMark?_wide (c : Char) (wide : Wide c) : TokenKind.ofMark? c = none := by
  unfold TokenKind.ofMark?
  split
  all_goals first | exact absurd wide (by decide) | rfl

theorem blunt_either {x y : Char} (narrow : ¬Wide x) (narrow' : ¬Wide y) :
    Blunt fun c => c == x || c == y :=
  .of_const (b := false) fun c wide => by rw [beq_wide narrow c wide, beq_wide narrow' c wide]; rfl

theorem blunt_inLine : Blunt (· != '\n') :=
  .of_const (b := true) fun c wide => by rw [bne, beq_wide (by decide) c wide]; rfl

/-! Loops -/

section Loops

variable {α : Type} {loop : Nat → Position → Checked α}

/-- A loop spends one round on such a byte, whatever follows, and goes on behind it. -/
def PassesOver (bytes : List UInt8) (loop : Nat → Position → Checked α) (byte : UInt8) : Prop :=
  ∀ rounds place more, At bytes place (byte :: more) →
    loop (rounds + 1) place = loop rounds (nextByte place byte)

theorem passes_bytes {own : List UInt8} (each : ∀ byte ∈ own, PassesOver bytes loop byte)
    (here : At bytes place (own ++ rest)) (rounds : Nat) :
    loop (rounds + own.length) place = loop rounds (own.foldl nextByte place) := by
  induction own generalizing place with
  | nil => rfl
  | cons byte own ih =>
    obtain ⟨first, others⟩ := List.forall_mem_cons.mp each
    rw [List.length_cons, ← Nat.add_assoc, first _ _ _ here, ih others here.nextByte,
      List.foldl_cons]

/-- A loop that passes over the bytes of a character has rounds enough left for what is behind. -/
theorem passes_char (each : ∀ byte ∈ String.utf8EncodeChar c, PassesOver bytes loop byte)
    (here : At bytes place (utf8 (c :: text))) {rounds : Nat}
    (enough : byteCount (c :: text) < rounds) :
    ∃ others, byteCount text < others ∧ loop rounds place = loop others (place.next c) := by
  have size := String.length_utf8EncodeChar c
  rw [byteCount_cons] at enough
  obtain ⟨others, rfl⟩ : ∃ others, rounds = others + c.utf8Size := ⟨rounds - c.utf8Size, by omega⟩
  rw [utf8_cons] at here
  refine ⟨others, by omega, ?_⟩
  rw [← foldl_nextByte, ← size]
  exact passes_bytes each here others

end Loops

/-- The bytes that continue a character end where the next one starts. -/
theorem skipWhile_stops (here : At bytes place (utf8 text)) (rounds : Nat) :
    skipWhile bytes isContinuation (rounds + 1) place = .ok place := by
  cases text with
  | nil =>
    rw [skipWhile, here.getElem?_nil]
    rfl
  | cons c text =>
    obtain ⟨lead, tail, same, leads, -⟩ := exists_lead c
    rw [utf8_cons, same] at here
    rw [skipWhile, here.getElem?_zero]
    simp only [leads]
    rfl

section Steps

variable (short : bytes.length < 2 ^ 32 - 1)

include short

theorem bump_byte {byte : UInt8} (here : At bytes place (byte :: rest)) :
    bump bytes place = .ok (nextByte place byte) := by
  have whole := here.length_eq
  have line := here.line_le
  have column := here.column_le
  rw [List.length_cons] at whole
  rw [bump, get_eq_ok here.getElem?_zero, add_eq_ok (a := place.line) (by omega),
    add_eq_ok (a := place.column) (by omega)]
  unfold nextByte
  change (if _ then _ else _ : Checked Position) = _
  split
  · rfl
  split
  · rfl
  · rfl

/-- A character in ASCII is passed in one step. -/
theorem bump_narrow (narrow : ¬Wide c) (here : At bytes place (utf8 (c :: text))) :
    bump bytes place = .ok (place.next c) := by
  obtain ⟨own, same, -⟩ := utf8EncodeChar_narrow narrow
  rw [utf8_cons, same] at here
  rw [bump_byte short here, ← foldl_nextByte, same]
  rfl

theorem skipWhile_passes {p : UInt8 → Bool} {byte : UInt8} (passing : p byte = true) :
    PassesOver bytes (skipWhile bytes p) byte := by
  intro rounds place more here
  rw [skipWhile, here.getElem?_zero]
  simp only [passing, if_true]
  rw [bump_byte short here, ok_bind]

theorem skipWhile_eq {p : UInt8 → Bool} {q : Char → Bool}
    (agree : ∀ c, ∀ byte ∈ String.utf8EncodeChar c, p byte = q c)
    (here : At bytes place (utf8 text))
    {rounds : Nat} (enough : byteCount text < rounds) :
    skipWhile bytes p rounds place = .ok (place.after (text.takeWhile q)) := by
  induction text generalizing place rounds with
  | nil =>
    obtain ⟨others, rfl⟩ := Nat.exists_eq_add_of_lt enough
    rw [skipWhile, here.getElem?_nil]
    rfl
  | cons c text ih =>
    by_cases passing : q c = true
    · have each : ∀ byte ∈ String.utf8EncodeChar c, PassesOver bytes (skipWhile bytes p) byte :=
        fun byte member => skipWhile_passes short ((agree c byte member).trans passing)
      obtain ⟨others, enough, same⟩ := passes_char each here enough
      rw [same, ih here.next enough, List.takeWhile_cons, if_pos passing, Position.after_cons]
    · obtain ⟨others, rfl⟩ := Nat.exists_eq_add_of_lt enough
      obtain ⟨lead, tail, same, -, -⟩ := exists_lead c
      have stops : p lead = q c := agree c lead (by rw [same]; exact List.mem_cons_self)
      rw [utf8_cons, same] at here
      rw [skipWhile, here.getElem?_zero, List.takeWhile_cons, if_neg passing]
      simp only [stops, passing]
      rfl

theorem skip_eq {q : Char → Bool} (blunt : Blunt q) (here : At bytes place (utf8 text)) :
    skip bytes q place = .ok (place.after (Cut.span q text).text) := by
  have whole := here.length_eq
  rw [length_utf8] at whole
  have enough : byteCount text < bytes.length + 1 := by omega
  have agree : ∀ c, ∀ byte ∈ String.utf8EncodeChar c, q (Char.ofUInt8 byte) = q c :=
    fun c byte member => (resembles_of_mem member).congr blunt
  exact skipWhile_eq short agree here enough

/-! Refusals and their texts -/

theorem spanFrom_eq (first : start.offset ≤ bytes.length) (last : place.offset ≤ bytes.length) :
    spanFrom start place = .ok (.between start place) := by
  rw [spanFrom, word_eq_ok (by omega), word_eq_ok (by omega)]
  rfl

theorem refuseFrom_eq {α : Type} (first : start.offset ≤ bytes.length)
    (last : place.offset ≤ bytes.length) (fault : SyntaxFault) :
    refuseFrom start place fault = (refuse ⟨start.line, start.column, fault⟩ : Checked α) := by
  rw [refuseFrom, spanFrom_eq short first last]
  rfl

end Steps

/-! Strings, patterns and comments -/

/-- Where a loop stops that cuts off a stretch of the text, or what it refuses if it cannot. -/
def landing (start place : Position) (fault : SyntaxFault) : Option Cut → Checked Position
  | some cut => .ok (place.after cut.text)
  | none => refuse ⟨start.line, start.column, fault⟩

@[simp] theorem landing_map_cons (start place : Position) (fault : SyntaxFault) (c : Char)
    (cut? : Option Cut) :
    landing start place fault (cut?.map (Cut.cons c)) =
      landing start (place.next c) fault cut? := by
  cases cut? <;> rfl

section Delimited

variable (short : bytes.length < 2 ^ 32 - 1)

include short

/-- Behind the first byte of a character, a loop that passes over what continues one gets to its
end. -/
theorem passes_rest {α : Type} {loop : Nat → Position → Checked α}
    (wide : ∀ byte, isContinuation byte = true → PassesOver bytes loop byte)
    (here : At bytes place (utf8 (c :: text))) {rounds : Nat}
    (enough : byteCount (c :: text) ≤ rounds) :
    ∃ middle others, bump bytes place = .ok middle ∧ byteCount text < others ∧
      loop rounds middle = loop others (place.next c) := by
  have size := String.length_utf8EncodeChar c
  rw [byteCount_cons] at enough
  rw [utf8_cons] at here
  rw [← foldl_nextByte]
  by_cases beyond : Wide c
  · obtain ⟨lead, tail, same, -, continues⟩ := utf8EncodeChar_wide beyond
    rw [same, List.length_cons] at size
    rw [same] at here ⊢
    obtain ⟨others, rfl⟩ : ∃ others, rounds = others + tail.length :=
      ⟨rounds - tail.length, by omega⟩
    refine ⟨nextByte place lead, others, bump_byte short here, by omega, ?_⟩
    exact passes_bytes (fun byte member => wide byte (continues byte member)) here.nextByte others
  · obtain ⟨own, same, -⟩ := utf8EncodeChar_narrow beyond
    have positive := c.utf8Size_pos
    rw [same] at here ⊢
    exact ⟨nextByte place own, rounds, bump_byte short here, by omega, rfl⟩

section Strings

variable {quote : Char} (inside : start.offset ≤ bytes.length)

theorem passString_passes {byte : UInt8} (inLine : Char.ofUInt8 byte ≠ '\n')
    (noBackslash : Char.ofUInt8 byte ≠ '\\') (noQuote : Char.ofUInt8 byte ≠ quote) :
    PassesOver bytes (passString bytes start quote) byte := by
  intro rounds place more here
  rw [passString, peek, Nat.add_zero, here.getElem?_zero, Option.map_some]
  simp only [if_neg inLine, if_neg noBackslash, if_neg noQuote]
  rw [bump_byte short here, ok_bind]

/-- Bytes that continue a character are like any others there. -/
theorem passString_continues (mark : quote = '"' ∨ quote = '\'') (byte : UInt8)
    (continues : isContinuation byte = true) :
    PassesOver bytes (passString bytes start quote) byte := by
  have wide := wide_of_isContinuation continues
  have other {x : Char} (narrow : ¬Wide x) : Char.ofUInt8 byte ≠ x := fun same =>
    narrow (same ▸ wide)
  have narrow : ¬Wide quote := by rcases mark with rfl | rfl <;> decide
  exact passString_passes short (other (by decide)) (other (by decide)) (other narrow)

theorem passString_plain (mark : quote = '"' ∨ quote = '\'') (inLine : c ≠ '\n')
    (noBackslash : c ≠ '\\') (noQuote : c ≠ quote) :
    ∀ byte ∈ String.utf8EncodeChar c, PassesOver bytes (passString bytes start quote) byte := by
  intro byte member
  have alike := resembles_of_mem member
  have narrow : ¬Wide quote := by rcases mark with rfl | rfl <;> decide
  exact passString_passes short (mt (alike.eq_iff (by decide)).mp inLine)
    (mt (alike.eq_iff (by decide)).mp noBackslash) (mt (alike.eq_iff narrow).mp noQuote)

/-- A backslash takes along the first byte of the next character, and the others are passed over. -/
theorem passString_escape (mark : quote = '"' ∨ quote = '\'') {e : Char}
    (here : At bytes place (utf8 ('\\' :: e :: text))) {rounds : Nat}
    (enough : byteCount ('\\' :: e :: text) < rounds) :
    ∃ others, byteCount text < others ∧ passString bytes start quote rounds place =
      passString bytes start quote others ((place.next '\\').next e) := by
  obtain ⟨left, rfl⟩ : ∃ left, rounds = left + 1 := ⟨rounds - 1, by omega⟩
  obtain ⟨f, next, -⟩ := exists_peek here.next
  have size : '\\'.utf8Size = 1 := rfl
  have shown : peek bytes place 0 = some '\\' := (peek_eq_some_iff here (by decide)).mpr rfl
  rw [byteCount_cons, size] at enough
  have room : byteCount (e :: text) ≤ left := by omega
  have continues : ∀ byte, isContinuation byte = true →
      PassesOver bytes (passString bytes start quote) byte := passString_continues short mark
  obtain ⟨middle, others, bumped, enough, same⟩ := passes_rest short continues here.next room
  refine ⟨others, enough, ?_⟩
  rw [passString, shown]
  simp only [if_neg (show '\\' ≠ '\n' by decide), if_true]
  rw [bump_narrow short (by decide) here, ok_bind, next, bumped]
  simp only [Option.isSome_some, if_true]
  rw [ok_bind, same]

include inside

theorem passString_eq (mark : quote = '"' ∨ quote = '\'') (here : At bytes place (utf8 text))
    {rounds : Nat} (enough : byteCount text < rounds) :
    passString bytes start quote rounds place =
      landing start place (.unclosedString quote) (cutString quote false text) := by
  induction size : text.length using Nat.strong_induction_on generalizing place text rounds with
  | _ size ih =>
    subst size
    obtain ⟨left, rfl⟩ : ∃ left, rounds = left + 1 := ⟨rounds - 1, by omega⟩
    cases text with
    | nil =>
      rw [passString, peek_nil here]
      exact refuseFrom_eq short inside here.inside _
    | cons c text =>
      obtain ⟨d, shown, resembles⟩ := exists_peek here
      by_cases feed : c = '\n'
      · have noQuote : c ≠ quote := by rcases mark with rfl | rfl <;> simp [feed]
        rw [passString, shown, cutString, if_neg Bool.false_ne_true, if_neg noQuote, if_pos feed]
        simp only [if_pos ((resembles.eq_iff (by decide)).mpr feed)]
        exact refuseFrom_eq short inside here.inside _
      by_cases closes : c = quote
      · have narrow : ¬Wide c := by rw [closes]; rcases mark with rfl | rfl <;> decide
        have noBackslash : c ≠ '\\' := by rw [closes]; rcases mark with rfl | rfl <;> decide
        obtain rfl := (resembles.eq_iff narrow).mpr rfl
        rw [passString, shown, cutString, if_neg Bool.false_ne_true, if_pos closes]
        simp only [if_neg feed, if_neg noBackslash, if_pos closes]
        exact bump_narrow short narrow here
      rw [cutString, if_neg Bool.false_ne_true, if_neg closes, if_neg feed, landing_map_cons]
      by_cases backslash : c = '\\'
      · subst backslash
        cases text with
        | nil =>
          obtain rfl := (resembles.eq_iff (by decide)).mpr rfl
          rw [passString, shown]
          simp only [if_neg feed, if_true]
          rw [bump_narrow short (by decide) here, ok_bind, peek_nil here.next]
          have positive := '\\'.utf8Size_pos
          rw [byteCount_cons] at enough
          exact ih 0 (by simp) here.next (by omega) rfl
        | cons e text =>
          have shorter : text.length < ('\\' :: e :: text).length := by
            simp only [List.length_cons]
            omega
          obtain ⟨others, enough, same⟩ := passString_escape short mark here enough
          rw [same, ih text.length shorter here.next.next enough rfl, cutString,
            if_pos (beq_self_eq_true _), landing_map_cons]
      · have plain : (c == '\\') = false := beq_eq_false_iff_ne.mpr backslash
        obtain ⟨others, enough, same⟩ :=
          passes_char (passString_plain short mark feed backslash closes) here enough
        rw [same, ih text.length (by simp) here.next enough rfl, plain]

end Strings

theorem scanString_eq {quote : Char} (mark : quote = '"' ∨ quote = '\'')
    (here : At bytes start (utf8 (quote :: text))) :
    scanString bytes start quote =
      landing start start (.unclosedString quote)
        ((cutString quote false text).map (.cons quote)) := by
  have narrow : ¬Wide quote := by rcases mark with rfl | rfl <;> decide
  have whole := here.next.length_eq
  rw [length_utf8] at whole
  rw [scanString, bump_narrow short narrow here, ok_bind, landing_map_cons]
  exact passString_eq short here.inside mark here.next (by omega)

section Patterns

/-- A byte that is none of the marks of a pattern is passed over, and so is a slash in a class. -/
theorem passRegex_passes {inClass : Bool} {byte : UInt8} (inLine : Char.ofUInt8 byte ≠ '\n')
    (noBackslash : Char.ofUInt8 byte ≠ '\\') (noOpening : Char.ofUInt8 byte ≠ '[')
    (noClosing : Char.ofUInt8 byte ≠ ']') (noEnd : ¬(Char.ofUInt8 byte = '/' ∧ inClass = false)) :
    PassesOver bytes (passRegex bytes start inClass) byte := by
  intro rounds place more here
  rw [passRegex, peek, Nat.add_zero, here.getElem?_zero, Option.map_some]
  simp only [if_neg inLine, if_neg noBackslash, if_neg noOpening, if_neg noClosing, if_neg noEnd]
  rw [bump_byte short here, ok_bind]

theorem passRegex_continues (inClass : Bool) (byte : UInt8)
    (continues : isContinuation byte = true) :
    PassesOver bytes (passRegex bytes start inClass) byte := by
  have wide := wide_of_isContinuation continues
  have other {x : Char} (narrow : ¬Wide x) : Char.ofUInt8 byte ≠ x := fun same =>
    narrow (same ▸ wide)
  exact passRegex_passes short (other (by decide)) (other (by decide)) (other (by decide))
    (other (by decide)) fun both => other (by decide) both.1

theorem passRegex_plain {inClass : Bool} (inLine : c ≠ '\n') (noBackslash : c ≠ '\\')
    (noBracket : ¬(c = '[' ∨ c = ']')) (noEnd : ¬(c = '/' ∧ inClass = false)) :
    ∀ byte ∈ String.utf8EncodeChar c, PassesOver bytes (passRegex bytes start inClass) byte := by
  rw [not_or] at noBracket
  intro byte member
  have alike := resembles_of_mem member
  refine passRegex_passes short (mt (alike.eq_iff (by decide)).mp inLine)
    (mt (alike.eq_iff (by decide)).mp noBackslash) (mt (alike.eq_iff (by decide)).mp noBracket.1)
    (mt (alike.eq_iff (by decide)).mp noBracket.2) ?_
  rwa [alike.eq_iff (by decide)]

/-- A backslash takes along the next character, unless that ends the line. -/
theorem passRegex_escape {inClass : Bool} {e : Char} (inLine : e ≠ '\n')
    (here : At bytes place (utf8 ('\\' :: e :: text))) {rounds : Nat}
    (enough : byteCount ('\\' :: e :: text) < rounds) :
    ∃ others, byteCount text < others ∧ passRegex bytes start inClass rounds place =
      passRegex bytes start inClass others ((place.next '\\').next e) := by
  obtain ⟨left, rfl⟩ : ∃ left, rounds = left + 1 := ⟨rounds - 1, by omega⟩
  have size : '\\'.utf8Size = 1 := rfl
  have shown : peek bytes place 0 = some '\\' := (peek_eq_some_iff here (by decide)).mpr rfl
  have blunt := any_peek blunt_inLine here.next
  rw [List.head?_cons, Option.any_some, bne_iff_ne.mpr inLine] at blunt
  rw [byteCount_cons, size] at enough
  have room : byteCount (e :: text) ≤ left := by omega
  have continues : ∀ byte, isContinuation byte = true →
      PassesOver bytes (passRegex bytes start inClass) byte := passRegex_continues short inClass
  obtain ⟨middle, others, bumped, enough, same⟩ := passes_rest short continues here.next room
  refine ⟨others, enough, ?_⟩
  rw [passRegex, shown]
  simp only [if_neg (show '\\' ≠ '\n' by decide), if_true]
  rw [bump_narrow short (by decide) here, ok_bind, blunt, if_pos rfl, bumped, ok_bind, same]

/-- In front of the end of a line, or of the text, it does not. -/
theorem passRegex_backslash {inClass : Bool} (here : At bytes place (utf8 ('\\' :: text)))
    (ends : ¬text.head?.any (· != '\n') = true) (rounds : Nat) :
    passRegex bytes start inClass (rounds + 1) place =
      passRegex bytes start inClass rounds (place.next '\\') := by
  have shown : peek bytes place 0 = some '\\' := (peek_eq_some_iff here (by decide)).mpr rfl
  rw [passRegex, shown]
  simp only [if_neg (show '\\' ≠ '\n' by decide), if_true]
  rw [bump_narrow short (by decide) here, ok_bind, any_peek blunt_inLine here.next, if_neg ends]

theorem passRegex_bracket {inClass : Bool} (bracket : c = '[' ∨ c = ']')
    (here : At bytes place (utf8 (c :: text))) (rounds : Nat) :
    passRegex bytes start inClass (rounds + 1) place =
      passRegex bytes start (c == '[') rounds (place.next c) := by
  have narrow : ¬Wide c := by rcases bracket with rfl | rfl <;> decide
  rw [passRegex, (peek_eq_some_iff here narrow).mpr rfl, bump_narrow short narrow here]
  rcases bracket with rfl | rfl <;> rfl

omit short in
/-- At the end of a line, or of the text, it is all the same whether a backslash stands in front. -/
theorem cutRegex_escaped (ends : ¬text.head?.any (· != '\n') = true) (inClass : Bool) :
    cutRegex true inClass text = cutRegex false inClass text := by
  cases text with
  | nil => rfl
  | cons e text =>
    obtain rfl : e = '\n' := by simpa using ends
    rfl

omit short in
/-- Only brackets open and close a class. -/
theorem still_inClass (noBracket : ¬(c = '[' ∨ c = ']')) (inClass : Bool) :
    (c == '[' || (inClass && c != ']')) = inClass := by
  rw [not_or] at noBracket
  rw [beq_eq_false_iff_ne.mpr noBracket.1, bne, beq_eq_false_iff_ne.mpr noBracket.2, Bool.false_or,
    Bool.not_false, Bool.and_true]

theorem passRegex_eq (inside : start.offset ≤ bytes.length) {inClass : Bool}
    (here : At bytes place (utf8 text)) {rounds : Nat} (enough : byteCount text < rounds) :
    passRegex bytes start inClass rounds place =
      landing start place .unclosedRegex (cutRegex false inClass text) := by
  induction size : text.length using Nat.strong_induction_on
    generalizing place text rounds inClass with
  | _ size ih =>
    subst size
    obtain ⟨left, rfl⟩ : ∃ left, rounds = left + 1 := ⟨rounds - 1, by omega⟩
    cases text with
    | nil =>
      rw [passRegex, peek_nil here]
      exact refuseFrom_eq short inside here.inside _
    | cons c text =>
      obtain ⟨d, shown, resembles⟩ := exists_peek here
      have positive := c.utf8Size_pos
      have room : byteCount text < left := by
        rw [byteCount_cons] at enough
        omega
      by_cases feed : c = '\n'
      · rw [passRegex, shown, cutRegex, if_pos feed]
        simp only [if_pos ((resembles.eq_iff (by decide)).mpr feed)]
        exact refuseFrom_eq short inside here.inside _
      by_cases closes : c = '/' ∧ inClass = false
      · obtain ⟨rfl, rfl⟩ := closes
        obtain rfl := (resembles.eq_iff (by decide)).mpr rfl
        rw [passRegex, shown]
        exact bump_narrow short (by decide) here
      have opened : ¬(c = '/' && !inClass) = true := by simpa using closes
      rw [cutRegex, if_neg feed, if_neg Bool.false_ne_true, if_neg opened, landing_map_cons]
      by_cases bracket : c = '[' ∨ c = ']'
      · have noBackslash : (c == '\\') = false := by rcases bracket with rfl | rfl <;> rfl
        have class? : (c == '[' || (inClass && c != ']')) = (c == '[') := by
          rcases bracket with rfl | rfl <;> simp
        rw [passRegex_bracket short bracket here, noBackslash, class?]
        exact ih text.length (by simp) here.next room rfl
      rw [still_inClass bracket]
      by_cases backslash : c = '\\'
      · subst backslash
        by_cases ends : text.head?.any (· != '\n') = true
        · obtain ⟨e, some, inLine⟩ := (Option.any_eq_true ..).mp ends
          obtain ⟨behind, rfl⟩ := List.head?_eq_some_iff.mp some
          have shorter : behind.length < ('\\' :: e :: behind).length := by
            simp only [List.length_cons]
            omega
          obtain ⟨others, enough, same⟩ := passRegex_escape short (bne_iff_ne.mp inLine) here enough
          rw [same, ih behind.length shorter here.next.next enough rfl, cutRegex,
            if_neg (bne_iff_ne.mp inLine), if_pos (beq_self_eq_true _), landing_map_cons]
        · rw [passRegex_backslash short here ends, ih text.length (by simp) here.next room rfl,
            beq_self_eq_true, cutRegex_escaped ends]
      · have plain : (c == '\\') = false := beq_eq_false_iff_ne.mpr backslash
        obtain ⟨others, enough, same⟩ :=
          passes_char (passRegex_plain short feed backslash bracket closes) here enough
        rw [same, ih text.length (by simp) here.next enough rfl, plain]

end Patterns

theorem scanRegex_eq (here : At bytes start (utf8 ('/' :: text))) :
    scanRegex bytes start = landing start start .unclosedRegex
      ((cutRegex false false text).map fun cut =>
        (cut.andThen (Cut.span Char.isAlpha)).cons '/') := by
  have whole := here.next.length_eq
  rw [length_utf8] at whole
  rw [scanRegex, bump_narrow short (by decide) here, ok_bind,
    passRegex_eq short here.inside here.next (by omega)]
  cases read : cutRegex false false text with
  | none => rfl
  | some cut =>
    have parted : cut.text ++ cut.rest = text := whole_cutRegex read
    have behind := here.next
    rw [← parted] at behind
    change skip bytes Char.isAlpha ((start.next '/').after cut.text) = _
    rw [skip_eq short (.of_const isAlpha_wide) behind.after, ← Position.after_append]
    rfl

section Comments

theorem passComment_passes {byte : UInt8} (noStar : Char.ofUInt8 byte ≠ '*') :
    PassesOver bytes (passComment bytes start) byte := by
  intro rounds place more here
  have whole := here.length_eq
  rw [List.length_cons] at whole
  have shown : peek bytes place 0 = some (Char.ofUInt8 byte) := by
    rw [peek, Nat.add_zero, here.getElem?_zero, Option.map_some]
  have opened : ¬(peek bytes place 0 = some '*' ∧ peek bytes place 1 = some '/') := by
    rw [shown]
    exact fun both => noStar (Option.some.inj both.1)
  rw [passComment, if_pos (by omega), if_neg opened, bump_byte short here, ok_bind]

theorem passComment_eq (inside : start.offset ≤ bytes.length) (here : At bytes place (utf8 text))
    {rounds : Nat} (enough : byteCount text < rounds) :
    passComment bytes start rounds place =
      landing start place .unclosedComment (cutComment text) := by
  induction text generalizing place rounds with
  | nil =>
    obtain ⟨left, rfl⟩ : ∃ left, rounds = left + 1 := ⟨rounds - 1, by omega⟩
    have whole := here.length_eq
    rw [utf8_nil, List.length_nil] at whole
    rw [passComment, if_neg (by omega)]
    exact refuseFrom_eq short inside here.inside _
  | cons c text ih =>
    rw [cutComment]
    by_cases star : c = '*'
    · subst star
      have narrow : ¬Wide '*' := by decide
      have size : '*'.utf8Size = 1 := rfl
      have whole := here.length_eq
      rw [length_utf8, byteCount_cons] at whole
      rw [byteCount_cons] at enough
      obtain ⟨left, rfl⟩ : ∃ left, rounds = left + 1 := ⟨rounds - 1, by omega⟩
      have first := (peek_eq_some_iff here narrow).mpr rfl
      have second : peek bytes place 1 = some '/' ↔ text.head? = some '/' := by
        rw [peek_one narrow]
        exact peek_eq_some_iff here.next (by decide)
      rw [passComment, if_pos (by omega), bump_narrow short narrow here]
      by_cases closes : text.head? = some '/'
      · obtain ⟨behind, rfl⟩ := List.head?_eq_some_iff.mp closes
        rw [if_pos ⟨first, second.mpr closes⟩, ok_bind, bump_narrow short (by decide) here.next]
        rfl
      · rw [if_neg fun both => closes (second.mp both.2), if_neg (by simp [closes]), ok_bind,
          ih here.next (by omega), landing_map_cons]
    · have each : ∀ byte ∈ String.utf8EncodeChar c,
          PassesOver bytes (passComment bytes start) byte := fun byte member =>
        passComment_passes short (mt ((resembles_of_mem member).eq_iff (by decide)).mp star)
      obtain ⟨others, enough, same⟩ := passes_char each here enough
      rw [same, ih here.next enough, if_neg (by simp [star]), landing_map_cons]

end Comments

theorem scanComment_eq (here : At bytes start (utf8 ('/' :: '*' :: text))) :
    scanComment bytes start = landing start start .unclosedComment
      ((cutComment text).map fun cut => (cut.cons '*').cons '/') := by
  have whole := here.next.next.length_eq
  rw [length_utf8] at whole
  rw [scanComment, bump_narrow short (by decide) here, ok_bind,
    bump_narrow short (by decide) here.next, ok_bind,
    passComment_eq short here.inside here.next.next (by omega)]
  cases cutComment text <;> rfl

end Delimited

end MongoShell.Checked
