import MongoShell.Proofs.Checked.Loops

/-! The checked scanner and the scanner over characters. Piece by piece the one cuts off what the
other cuts off and refuses what the other refuses, so the tokens of the one are those of the other
without their texts. -/

namespace MongoShell.Checked

variable {place : Position} {c : Char} {text : List Char}

/-! Pieces -/

/-- What a piece at the front of the text makes of the place where it starts. -/
def taken (start : Position) : Except SyntaxFault Front → Checked (Piece × Position)
  | .ok piece => .ok (piece.piece, start.after piece.cut.text)
  | .error fault => refuse ⟨start.line, start.column, fault⟩

theorem landing_taken (start : Position) (fault : SyntaxFault) (piece : Piece)
    (cut? : Option Cut) :
    (do return (piece, ← landing start start fault cut?) : Checked (Piece × Position)) =
      taken start (match cut? with
        | some cut => .ok ⟨piece, cut⟩
        | none => .error fault) := by
  cases cut? <;> rfl

/-- No piece starts with a character beyond ASCII. -/
theorem front_wide (wide : Wide c) (text : List Char) :
    front c text = .error (.strayCharacter c) := by
  have other {x : Char} (narrow : ¬Wide x) : c ≠ x := fun same => narrow (same ▸ wide)
  have noQuote : ¬(c = '"' || c = '\'') = true := by
    simp [other (x := '"') (by decide), other (x := '\'') (by decide)]
  rw [front, isIdentifierStart_wide c wide, isDigit_wide c wide, isBlank_wide c wide,
    ofMark?_wide c wide, if_neg Bool.false_ne_true, if_neg Bool.false_ne_true, if_neg noQuote,
    if_neg (other (by decide)), if_neg Bool.false_ne_true]

/-! Places in a source -/

section Source

variable {source before middle back : List Char}

theorem at_behind (whole : source = before ++ text) :
    At (utf8 source) (Position.start.after before) (utf8 text) := by
  subst whole
  exact (At.of_start _).after

theorem blunt_exponent : Blunt fun c => c == 'e' || c == 'E' :=
  blunt_either (by decide) (by decide)

/-- A number that stops behind its exponent's letter, or behind the sign there, ends in no digit. -/
theorem endsInDigit_bare {mark : Char} {sign : List Char} (isMark : ExponentMark mark)
    (signed : Sign sign) (mantissa : List Char) :
    endsInDigit (mantissa ++ mark :: sign) = false := by
  have noDigit : ∀ c ∈ mark :: sign, c.isDigit = false :=
    List.forall_mem_cons.mpr ⟨isMark.not_isDigit, signed.not_isDigit⟩
  have some : mark :: sign ≠ [] := List.cons_ne_nil _ _
  rw [endsInDigit, List.getLast?_append, List.getLast?_eq_some_getLast some, Option.some_or]
  exact noDigit _ (List.getLast_mem some)

/-- A point with a digit behind it. -/
theorem opens_fraction (here : At (utf8 source) place (utf8 text)) :
    (peek (utf8 source) place 0 = some '.' ∧ (peek (utf8 source) place 1).any Char.isDigit = true) ↔
      ∃ d behind, text = '.' :: d :: behind ∧ d.isDigit = true := by
  have narrow : ¬Wide '.' := by decide
  rw [peek_eq_some_iff here narrow, List.head?_eq_some_iff, peek_one narrow]
  constructor
  · rintro ⟨⟨behind, rfl⟩, digit⟩
    rw [any_peek (.of_const isDigit_wide) here.next] at digit
    cases behind with
    | nil => cases digit
    | cons d behind => exact ⟨d, behind, rfl, digit⟩
  · rintro ⟨d, behind, rfl, digit⟩
    rw [any_peek (.of_const isDigit_wide) here.next]
    exact ⟨⟨_, rfl⟩, digit⟩

variable (short : (utf8 source).length < 2 ^ 32 - 1)

include short

/-- The text between two places of a source, by their offsets. -/
theorem textFrom_eq (whole : source = before ++ (middle ++ back)) :
    textFrom (utf8 source) (Position.start.after before) (Position.start.after (before ++ middle)) =
      .ok (String.ofList middle) := by
  have further : source = (before ++ middle) ++ back := by rw [whole, List.append_assoc]
  rw [textFrom, spanFrom_eq short (at_behind whole).inside (at_behind further).inside]
  change slice _ (Position.start.after before).offset
    (Position.start.after (before ++ middle)).offset = _
  rw [Position.offset_start, Position.offset_start, whole, slice_append]

/-! Numbers -/

theorem scanFraction_eq (here : At (utf8 source) place (utf8 text)) :
    scanFraction (utf8 source) place = .ok (place.after (cutFraction text).text) := by
  have opens := opens_fraction here
  unfold scanFraction
  by_cases point : ∃ d behind, text = '.' :: d :: behind ∧ d.isDigit = true
  · rw [if_pos (opens.mpr point)]
    obtain ⟨d, behind, rfl, digit⟩ := point
    rw [bump_narrow short (by decide) here, cutFraction, if_pos digit]
    exact skip_eq short (.of_const isDigit_wide) here.next
  · rw [if_neg (mt opens.mp point)]
    have other : cutFraction text = ⟨[], text⟩ := by
      unfold cutFraction
      split
      · rename_i d behind
        exact if_neg fun digit => point ⟨d, behind, rfl, digit⟩
      · rfl
    rw [other]
    rfl

theorem scanSign_eq (here : At (utf8 source) place (utf8 text)) :
    scanSign (utf8 source) place = .ok (place.after (cutSign text).text) := by
  have blunt := blunt_either (x := '+') (y := '-') (by decide) (by decide)
  rw [scanSign, any_peek blunt here]
  cases text with
  | nil => rfl
  | cons c text =>
    rw [List.head?_cons, Option.any_some, cutSign]
    by_cases sign : (c == '+' || c == '-') = true
    · have narrow : ¬Wide c := fun wide => by
        rw [beq_wide (by decide) c wide, beq_wide (by decide) c wide] at sign
        cases sign
      rw [if_pos sign, if_pos sign, bump_narrow short narrow here]
      rfl
    · rw [if_neg sign, if_neg sign]
      rfl

theorem closeExponent_eq {mantissa sign digits : List Char} {mark : Char}
    (whole : source = before ++ (mantissa ++ mark :: (sign ++ (digits ++ back))))
    (isMark : ExponentMark mark) (signed : Sign sign) (all : ∀ c ∈ digits, c.isDigit = true) :
    closeExponent (utf8 source) (Position.start.after before)
        (Position.start.after (before ++ (mantissa ++ mark :: sign)))
        (Position.start.after (before ++ (mantissa ++ mark :: (sign ++ digits)))) =
      if endsInDigit (mantissa ++ mark :: (sign ++ digits)) then
        .ok (Position.start.after (before ++ (mantissa ++ mark :: (sign ++ digits))))
      else refuse ⟨(Position.start.after before).line, (Position.start.after before).column,
        .bareExponent (String.ofList (mantissa ++ mark :: (sign ++ digits)))⟩ := by
  unfold closeExponent
  by_cases none : digits = []
  · subst none
    rw [List.append_nil] at *
    have parted : source = before ++ ((mantissa ++ mark :: sign) ++ back) := by simp [whole]
    have further : source = (before ++ (mantissa ++ mark :: sign)) ++ back := by simp [whole]
    rw [if_pos rfl, textFrom_eq short parted, ok_bind,
      refuseFrom_eq short (at_behind parted).inside (at_behind further).inside,
      endsInDigit_bare isMark signed, if_neg Bool.false_ne_true]
  · have shown : mantissa ++ mark :: (sign ++ digits) = (mantissa ++ mark :: sign) ++ digits := by
      simp
    have ends : endsInDigit ((mantissa ++ mark :: sign) ++ digits) = true :=
      Numeral.endsInDigit_append _ ⟨none, all⟩
    have further : 0 < byteCount digits := by
      obtain ⟨d, more, rfl⟩ := List.exists_cons_of_ne_nil none
      exact Nat.add_pos_left d.utf8Size_pos _
    rw [shown, ends, if_pos rfl, if_neg]
    · rfl
    · rw [← List.append_assoc, Position.after_append _ _ digits, Position.offset_after _ digits]
      omega

/-- The exponent behind a mantissa; the number is refused if it does not end in a digit then. -/
theorem scanExponent_eq {mantissa rest : List Char} (whole : source = before ++ (mantissa ++ rest))
    (isMantissa : Mantissa mantissa) :
    scanExponent (utf8 source) (Position.start.after before)
        (Position.start.after (before ++ mantissa)) =
      if endsInDigit (mantissa ++ (cutExponent rest).text) then
        .ok (Position.start.after (before ++ (mantissa ++ (cutExponent rest).text)))
      else refuse ⟨(Position.start.after before).line, (Position.start.after before).column,
        .bareExponent (String.ofList (mantissa ++ (cutExponent rest).text))⟩ := by
  have behind : source = (before ++ mantissa) ++ rest := by rw [whole, List.append_assoc]
  have here := at_behind behind
  rw [scanExponent, any_peek blunt_exponent here]
  cases rest with
  | nil =>
    rw [if_neg (by simp), cutExponent, List.append_nil, if_pos isMantissa.endsInDigit]
    rfl
  | cons c rest =>
    rw [List.head?_cons, Option.any_some]
    by_cases mark : (c == 'e' || c == 'E') = true
    · have isMark : ExponentMark c := by simpa [ExponentMark] using mark
      have narrow : ¬Wide c := by rcases isMark with rfl | rfl <;> decide
      have parted : (cutSign rest).text ++ (cutSign rest).rest = rest := whole_cutSign rest
      have cut : (Cut.span Char.isDigit (cutSign rest).rest).whole = (cutSign rest).rest :=
        Cut.whole_span _ _
      have signed := here.next
      rw [← parted] at signed
      rw [if_pos mark, bump_narrow short narrow here, ok_bind, scanSign_eq short here.next, ok_bind,
        skip_eq short (.of_const isDigit_wide) signed.after, ok_bind, cutExponent_mark isMark]
      rw [← parted, ← cut] at whole
      have closed := closeExponent_eq short whole isMark (sign_cutSign rest) fun d member =>
        List.mem_takeWhile_imp member
      simpa only [Cut.cons, Cut.andThen, Position.after_append, Position.after_cons] using closed
    · have noMark : ∀ d ∈ (c :: rest).head?, ¬ExponentMark d := by
        rintro d ⟨⟩
        simpa [ExponentMark] using mark
      rw [if_neg mark, cutExponent_other noMark, List.append_nil, if_pos isMantissa.endsInDigit]
      rfl

theorem scanNumber_eq (whole : source = before ++ c :: text) (digit : c.isDigit = true) :
    scanNumber (utf8 source) (Position.start.after before) =
      if endsInDigit (cutNumber (c :: text)).text then
        .ok ((Position.start.after before).after (cutNumber (c :: text)).text)
      else refuse ⟨(Position.start.after before).line, (Position.start.after before).column,
        .bareExponent (String.ofList (cutNumber (c :: text)).text)⟩ := by
  have digits : (Cut.span Char.isDigit (c :: text)).whole = c :: text := Cut.whole_span _ _
  have mantissa := mantissa_cutMantissa digit text
  have here := at_behind whole
  have pointed := here
  rw [← digits] at pointed
  rw [scanNumber, skip_eq short (.of_const isDigit_wide) here, ok_bind,
    scanFraction_eq short pointed.after, ok_bind, cutNumber_eq]
  have parted :
      source = before ++ ((cutMantissa (c :: text)).text ++ (cutMantissa (c :: text)).rest) := by
    have same : (cutMantissa (c :: text)).whole = c :: text := by
      rw [cutMantissa, Cut.whole_andThen _ _ whole_cutFraction, digits]
    exact whole.trans (congrArg (before ++ ·) same.symm)
  have scaled := scanExponent_eq short parted mantissa
  rw [Position.after_append, cutMantissa, Cut.andThen, Position.after_append] at scaled
  rw [scaled, Position.after_append _ before]
  rfl

/-- A character that no token starts with is refused as a whole. -/
theorem scanStray_eq {α : Type} (whole : source = before ++ c :: text) :
    (scanStray (utf8 source) (Position.start.after before) : Checked α) =
      refuse ⟨(Position.start.after before).line, (Position.start.after before).column,
        .strayCharacter c⟩ := by
  have here := at_behind whole
  have room := here.length_eq
  obtain ⟨lead, tail, same, -, continues⟩ := exists_lead c
  have size := String.length_utf8EncodeChar c
  rw [same, List.length_cons] at size
  rw [length_utf8, byteCount_cons] at room
  rw [utf8_cons, same] at here
  have rounds :
      (utf8 source).length + 1 = (utf8 source).length - tail.length + 1 + tail.length := by
    omega
  have each :
      ∀ byte ∈ tail, PassesOver (utf8 source) (skipWhile (utf8 source) isContinuation) byte :=
    fun byte member => skipWhile_passes short (continues byte member)
  have behind : tail.foldl nextByte (nextByte (Position.start.after before) lead) =
      Position.start.after (before ++ [c]) := by
    rw [Position.after_append, Position.after_cons, Position.after_nil, ← foldl_nextByte, same]
    rfl
  have next : At (utf8 source) (Position.start.after (before ++ [c])) (utf8 text) := by
    rw [← behind]
    exact here.nextByte.foldl
  have parted : source = before ++ ([c] ++ text) := whole
  rw [scanStray, bump_byte short here, ok_bind, rounds, passes_bytes each here.nextByte, behind,
    skipWhile_stops next, ok_bind, textFrom_eq short parted, ok_bind, String.toList_ofList]
  exact refuseFrom_eq short (at_behind parted).inside next.inside _

theorem scanSlash_eq (whole : source = before ++ '/' :: text) :
    scanSlash (utf8 source) (Position.start.after before) =
      taken (Position.start.after before) (slashFront text) := by
  have here := at_behind whole
  have second {x : Char} (narrow : ¬Wide x) :
      peek (utf8 source) (Position.start.after before) 1 = some x ↔ text.head? = some x := by
    rw [peek_one (c := '/') (by decide)]
    exact peek_eq_some_iff here.next narrow
  unfold scanSlash
  by_cases line : text.head? = some '/'
  · obtain ⟨behind, rfl⟩ := List.head?_eq_some_iff.mp line
    rw [if_pos ((second (by decide)).mpr line), skip_eq short blunt_inLine here]
    rfl
  by_cases block : text.head? = some '*'
  · obtain ⟨behind, rfl⟩ := List.head?_eq_some_iff.mp block
    rw [if_neg (mt (second (by decide)).mp line), if_pos ((second (by decide)).mpr block),
      scanComment_eq short here, landing_taken, slashFront]
    cases cutComment behind <;> rfl
  · rw [if_neg (mt (second (by decide)).mp line), if_neg (mt (second (by decide)).mp block),
      scanRegex_eq short here, landing_taken]
    have regex : slashFront text = match cutRegex false false text with
        | some cut => .ok ⟨.token .regex, (cut.andThen (Cut.span Char.isAlpha)).cons '/'⟩
        | none => .error .unclosedRegex := by
      unfold slashFront
      split
      · exact absurd rfl line
      · exact absurd rfl block
      · rfl
    rw [regex]
    cases cutRegex false false text <;> rfl

/-- No token starts with a character outside ASCII. -/
theorem scanPiece_wide (whole : source = before ++ c :: text) (wide : Wide c) {d : Char}
    (wide' : Wide d) :
    scanPiece (utf8 source) (Position.start.after before) d =
      taken (Position.start.after before) (front c text) := by
  have other {x : Char} (narrow : ¬Wide x) : d ≠ x := fun same => narrow (same ▸ wide')
  have noQuote : ¬(d = '"' || d = '\'') = true := by
    simp [other (x := '"') (by decide), other (x := '\'') (by decide)]
  rw [scanPiece, front_wide wide, isIdentifierStart_wide d wide', isDigit_wide d wide',
    isBlank_wide d wide', ofMark?_wide d wide', if_neg Bool.false_ne_true,
    if_neg Bool.false_ne_true,
    if_neg noQuote, if_neg (other (by decide)), if_neg Bool.false_ne_true]
  exact scanStray_eq short whole

/-- The piece where a character stands is read as well by the first byte of the character. -/
theorem scanPiece_eq (whole : source = before ++ c :: text) {d : Char} (resembles : Resembles d c) :
    scanPiece (utf8 source) (Position.start.after before) d =
      taken (Position.start.after before) (front c text) := by
  rcases resembles with rfl | ⟨wide', wide⟩
  · have here := at_behind whole
    unfold scanPiece front
    by_cases identifier : isIdentifierStart d = true
    · have starts : isIdentifierPart d = true := isIdentifierPart_of_isIdentifierStart identifier
      rw [if_pos identifier, if_pos identifier,
        skip_eq short (.of_const isIdentifierPart_wide) here,
        Cut.span, List.takeWhile_cons, if_pos starts]
      rfl
    rw [if_neg identifier, if_neg identifier]
    by_cases digit : d.isDigit = true
    · rw [if_pos digit, if_pos digit, scanNumber_eq short whole digit]
      simp only
      split
      · rfl
      · rfl
    rw [if_neg digit, if_neg digit]
    by_cases quote : (d = '"' || d = '\'') = true
    · have mark : d = '"' ∨ d = '\'' := by simpa using quote
      rw [if_pos quote, if_pos quote, scanString_eq short mark here, landing_taken]
      cases cutString d false text <;> rfl
    rw [if_neg quote, if_neg quote]
    by_cases slash : d = '/'
    · subst slash
      exact scanSlash_eq short whole
    rw [if_neg slash, if_neg slash]
    by_cases blank : isBlank d = true
    · have narrow : ¬Wide d := fun wide => by simp [isBlank_wide d wide] at blank
      rw [if_pos blank, if_pos blank, bump_narrow short narrow here]
      rfl
    rw [if_neg blank, if_neg blank]
    cases mark : TokenKind.ofMark? d with
    | none => exact scanStray_eq short whole
    | some kind =>
      have narrow : ¬Wide d := fun wide => by simp [ofMark?_wide d wide] at mark
      simp only [bump_narrow short narrow here]
      rfl
  · exact scanPiece_wide short whole wide wide'

/-! Whole sources -/

theorem scanAll_eq (whole : source = before ++ text) {rounds : Nat}
    (enough : text.length < rounds) :
    scanAll (utf8 source) rounds (Position.start.after before) =
      ((scanFrom (Position.start.after before) text).map (·.map Token.bare)).mapError .refused := by
  induction size : text.length using Nat.strong_induction_on generalizing before text rounds with
  | _ size ih =>
    subst size
    obtain ⟨left, rfl⟩ : ∃ left, rounds = left + 1 := ⟨rounds - 1, by omega⟩
    have here := at_behind whole
    have length := here.length_eq
    rw [length_utf8] at length
    cases text with
    | nil =>
      rw [scanAll, if_neg (by rw [byteCount_nil] at length; omega),
        spanFrom_eq short here.inside here.inside, scanFrom]
      rfl
    | cons c text =>
      obtain ⟨lead, tail, same, -, -⟩ := exists_lead c
      have positive := c.utf8Size_pos
      have first : (utf8 source)[(Position.start.after before).offset]? = some lead := by
        rw [utf8_cons, same] at here
        exact here.getElem?_zero
      have resembles : Resembles (Char.ofUInt8 lead) c :=
        resembles_of_mem (by rw [same]; exact List.mem_cons_self)
      rw [scanAll, if_pos (by rw [byteCount_cons] at length; omega), get_eq_ok first, ok_bind,
        scanPiece_eq short whole resembles]
      cases read : front c text with
      | error fault =>
        rw [scanFrom_fault read]
        rfl
      | ok result =>
        have shorter := front_rest_lt read
        obtain ⟨parted, starts⟩ := starts_of_front read
        obtain ⟨piece, own, rest⟩ := result
        simp only at parted starts shorter
        rw [parted] at whole ⊢
        have further : source = (before ++ own) ++ rest := by rw [whole, List.append_assoc]
        have room : rest.length < left := by omega
        have others := ih rest.length shorter further room rfl
        rw [Position.after_append] at others
        cases piece with
        | trivia =>
          rw [scanFrom_trivia starts, ← others]
          rfl
        | token kind =>
          have behind := (at_behind further).inside
          rw [Position.after_append] at behind
          rw [scanFrom_token starts]
          change (do
            let span ← spanFrom (Position.start.after before)
              ((Position.start.after before).after own)
            return ⟨kind, span⟩ :: (← scanAll _ left ((Position.start.after before).after own)) :
              Checked (List BareToken)) = _
          rw [spanFrom_eq short here.inside behind, ok_bind, others]
          cases scanFrom ((Position.start.after before).after own) rest <;> rfl

/-- The tokens of a source by its bytes are its tokens, and no step on the way to them fails. -/
theorem tokens_eq :
    tokens (utf8 source) = ((scanFrom .start source).map (·.map Token.bare)).mapError .refused := by
  have enough : source.length < (utf8 source).length + 1 := by
    rw [length_utf8]
    exact Nat.lt_succ_of_le (length_le_byteCount source)
  exact scanAll_eq short (List.nil_append source).symm enough

end Source

end MongoShell.Checked
