import MongoShell.Proofs.Checked.Literal
import MongoShell.Proofs.Checked.Reading
import MongoShell.Proofs.Script.Ends

/-! Expressions by recursive descent. Each reader gets through the tokens that the automaton of the
expressions gets through, and where the automaton is refused it is refused for the same reason; no
step of it is taken without its token, its text or another round being there. -/

namespace MongoShell.Checked

/-! Places that the automaton reaches -/

/-- From a mode and its frames on, the automaton comes to an outcome with the tokens that are left
at a place; and there are some. -/
structure Reached (list : List Token) (mode : Mode) (frames : List Frame)
    (outcome : Except SyntaxError (Expr × List Token)) (pos : Nat) : Prop where
  inside : pos < list.length
  run_eq : mode.run frames (list.drop pos) = outcome

namespace Reached

variable {list : List Token} {mode next : Mode} {frames others : List Frame} {pos : Nat} {t : Token}
  {outcome : Except SyntaxError (Expr × List Token)}

theorem exists_token (reached : Reached list mode frames outcome pos) : ∃ t, list[pos]? = some t :=
  ⟨_, List.getElem?_eq_getElem reached.inside⟩

theorem cons_eq (reached : Reached list mode frames outcome pos) (here : list[pos]? = some t) :
    mode.run frames (t :: list.drop (pos + 1)) = outcome := by
  obtain ⟨inside, rfl⟩ := List.getElem?_eq_some_iff.mp here
  rw [← List.drop_eq_getElem_cons inside]
  exact reached.run_eq

theorem refused (reached : Reached list mode frames outcome pos) (here : list[pos]? = some t)
    {e : SyntaxError} (stepped : mode.step frames t = .error e) : outcome = .error e := by
  rw [← reached.cons_eq here, Mode.run, stepped]

/-- Two modes that do the same with a token come to the same from it on. -/
theorem congr (reached : Reached list mode frames outcome pos) (here : list[pos]? = some t)
    (same : mode.step frames t = next.step others t) : Reached list next others outcome pos := by
  refine ⟨reached.inside, ?_⟩
  obtain ⟨inside, rfl⟩ := List.getElem?_eq_some_iff.mp here
  rw [← reached.run_eq, List.drop_eq_getElem_cons inside, Mode.run, Mode.run, same]

/-- The automaton goes on at no token that ends a statement, so there is another one behind it. -/
theorem step {source : List Char} (scanned : scanFrom .start source = .ok list)
    (reached : Reached list mode frames outcome pos) (here : list[pos]? = some t)
    (stepped : mode.step frames t = .ok (.reading next others)) :
    Reached list next others outcome (pos + 1) := by
  have more : t.kind ≠ .endOfInput := by
    intro last
    obtain ⟨e, same, -⟩ := Mode.step_ends (.inr last) (.inr last) stepped
    cases same
  refine ⟨succ_lt_length scanned here more, ?_⟩
  rw [← reached.cons_eq here, Mode.run, stepped]

/-- A whole expression that nothing surrounds ends where it is. -/
theorem finished {e : Expr} (reached : Reached list (.complete e) [] outcome pos) :
    outcome = .ok (e, list.drop pos) := by
  rw [← reached.run_eq, List.drop_eq_getElem_cons reached.inside]
  rfl

end Reached

/-- A reader of values gets through what the automaton gets through, from a place on. -/
def ReadsFrom (list : List Token) (first : Nat) (nested : Reading Expr) : Prop :=
  ∀ ⦃pos frames outcome⦄, first ≤ pos → Reached list .value frames outcome pos →
    Yields (nested pos) outcome fun e later =>
      pos < later ∧ Reached list (.complete e) frames outcome later

theorem ReadsFrom.mono {list : List Token} {first later : Nat} {nested : Reading Expr}
    (reads : ReadsFrom list first nested) (further : first ≤ later) : ReadsFrom list later nested :=
  fun _ _ _ behind reached => reads (Nat.le_trans further behind) reached

/-- The token at a place closes something to a value, or it is refused. -/
def Closes (list : List Token) (kind : TokenKind) (whole : Span → Expr) (frames : List Frame)
    (outcome : Except SyntaxError (Expr × List Token)) (pos : Nat) : Prop :=
  ∃ t, list[pos]? = some t ∧ (t.kind ≠ kind → outcome = .error (t.unexpected (.token kind))) ∧
    (t.kind = kind → Reached list (.operand (whole t.span)) frames outcome (pos + 1))

/-- A value, or what the word `new` in front of it makes of it. -/
def wrapped : Option Span → Expr → Expr
  | none, e => e
  | some word, e => .construct (word.through e.span) e

/-- What a parenthesis in front of a value has to be closed with. -/
theorem Reached.closes_group {source : List Char} {list : List Token} {frames : List Frame}
    {outcome : Except SyntaxError (Expr × List Token)} {pos : Nat} {e : Expr}
    (scanned : scanFrom .start source = .ok list)
    (complete : Reached list (.complete e) (.group :: frames) outcome pos) :
    Closes list .rightParen (fun _ => e) frames outcome pos := by
  obtain ⟨t, here⟩ := complete.exists_token
  refine ⟨t, here, fun other => ?_, fun closes => ?_⟩
  · exact complete.refused here (if_neg other)
  · exact complete.step scanned here (if_pos closes)

theorem Reached.closes_index {source : List Char} {list : List Token} {frames : List Frame}
    {outcome : Except SyntaxError (Expr × List Token)} {pos : Nat} {target e : Expr}
    (scanned : scanFrom .start source = .ok list)
    (complete : Reached list (.complete e) (.index target :: frames) outcome pos) :
    Closes list .rightBracket (fun last => .index (target.span.through last) target e) frames
      outcome pos := by
  obtain ⟨t, here⟩ := complete.exists_token
  refine ⟨t, here, fun other => ?_, fun closes => ?_⟩
  · exact complete.refused here (if_neg other)
  · exact complete.step scanned here (if_pos closes)

section Readers

variable {source : List Char} {list : List Token} (scanned : scanFrom .start source = .ok list)
  {nested : Reading Expr} {first pos : Nat} {frames : List Frame}
  {outcome : Except SyntaxError (Expr × List Token)}

include scanned

theorem closes_yields {kind : TokenKind} {whole : Span → Expr} (inner : kind ≠ .endOfInput)
    (closes : Closes list kind whole frames outcome pos) :
    Yields ((Tape.of source list).expect kind pos) outcome fun got later =>
      later = pos + 1 ∧ ∃ t, list[pos]? = some t ∧ got = t.bare ∧
        Reached list (.operand (whole t.span)) frames outcome later := by
  obtain ⟨t, here, refused, closed⟩ := closes
  refine (expect_yields scanned here inner refused).mono ?_
  rintro got later ⟨rfl, rfl, kind⟩
  exact ⟨rfl, t, here, rfl, closed kind⟩

/-- The items of a list are read up to what has to close it. -/
theorem items_yields (reads : ReadsFrom list first nested) (opened : OpenList) {rounds : Nat}
    {earlier : List Expr} (behind : first ≤ pos) (enough : list.length ≤ pos + rounds)
    (reached : Reached list .item (opened.frame earlier :: frames) outcome pos) :
    Yields ((Tape.of source list).items nested opened.closing rounds pos) outcome fun items later =>
      pos ≤ later ∧
        Closes list opened.closing (opened.close (items.reverse ++ earlier)) frames outcome
          later := by
  induction rounds generalizing pos earlier with
  | zero => exact absurd reached.inside (Nat.not_lt_of_le enough)
  | succ rounds ih =>
    obtain ⟨t, here⟩ := reached.exists_token
    rw [Tape.items, Reading.bind_ok (check_eq here _)]
    by_cases closes : t.kind = opened.closing
    · rw [if_pos (beq_iff_eq.mpr closes)]
      refine Yields.pure ⟨Nat.le_refl pos, t, here, fun other => absurd closes other, fun _ => ?_⟩
      exact reached.step scanned here (opened.step_close earlier frames closes)
    · rw [if_neg (mt beq_iff_eq.mp closes)]
      have value := reached.congr here (opened.step_start earlier frames closes)
      refine (reads behind value).bind ?_
      rintro e middle ⟨further, complete⟩
      obtain ⟨u, there⟩ := complete.exists_token
      rw [Reading.bind_ok (check_eq there _)]
      by_cases comma : u.kind = .comma
      · have more : u.kind ≠ .endOfInput := by rw [comma]; decide
        rw [if_pos (beq_iff_eq.mpr comma), Reading.bind_ok (advance_eq there more)]
        have next := complete.step scanned there (opened.deliver_comma earlier frames e comma)
        refine (ih (by omega) (by omega) next).bind ?_
        rintro items later ⟨further', closes⟩
        refine Yields.pure ⟨by omega, ?_⟩
        rwa [List.reverse_cons, List.append_assoc, List.singleton_append]
      · rw [if_neg (mt beq_iff_eq.mp comma)]
        refine Yields.pure ⟨Nat.le_of_lt further, u, there, fun other => ?_, fun closing => ?_⟩
        · exact complete.refused there (opened.deliver_other earlier frames e comma other)
        · exact complete.step scanned there (opened.deliver_close earlier frames e closing)

theorem array_yields (reads : ReadsFrom list (pos + 1) nested) {t : Token}
    (here : list[pos]? = some t) (left : t.kind = .leftBracket)
    (reached : Reached list .value frames outcome pos) :
    Yields ((Tape.of source list).array nested pos) outcome fun e later =>
      pos < later ∧ Reached list (.operand e) frames outcome later := by
  have opened := reached.step scanned here (Grammar.step_bracket left)
  rw [Tape.array, Reading.bind_ok (expect_eq here left (by decide))]
  refine (items_yields scanned reads (.array t.span) (Nat.le_refl _) length_le_rounds
    opened).bind ?_
  rintro elements middle ⟨further, closes⟩
  refine (closes_yields scanned (OpenList.closing_ne _) closes).bind ?_
  rintro _ _ ⟨rfl, closing, -, rfl, closed⟩
  refine Yields.pure ⟨by omega, ?_⟩
  simpa [OpenList.close, Mode.closeArray] using closed

/-- The arguments of a call end with the token in front of the place that is reached. -/
theorem arguments_yields (reads : ReadsFrom list (pos + 1) nested) (word : Option Span)
    (callee : Expr) {t : Token} (here : list[pos]? = some t) (left : t.kind = .leftParen)
    (opened : Reached list .item ((OpenList.arguments word callee).frame [] :: frames) outcome
      (pos + 1)) :
    Yields ((Tape.of source list).arguments nested pos) outcome fun values later =>
      ∃ last closing, pos < last ∧ later = last + 1 ∧ list[last]? = some closing ∧
        Reached list (.operand (Mode.closeCall word callee values.reverse closing.span)) frames
          outcome later := by
  rw [Tape.arguments, Reading.bind_ok (expect_eq here left (by decide))]
  refine (items_yields scanned reads (.arguments word callee) (Nat.le_refl _) length_le_rounds
    opened).bind ?_
  rintro values last ⟨further, closes⟩
  refine (closes_yields scanned (OpenList.closing_ne _) closes).bind ?_
  rintro _ _ ⟨rfl, closing, there, rfl, closed⟩
  refine Yields.pure ⟨last, closing, further, rfl, there, ?_⟩
  simpa [OpenList.close] using closed

theorem call_yields (reads : ReadsFrom list (pos + 1) nested) (word : Option Span) (callee : Expr)
    {t : Token} (here : list[pos]? = some t) (left : t.kind = .leftParen)
    (opened : Reached list .item ((OpenList.arguments word callee).frame [] :: frames) outcome
      (pos + 1)) :
    Yields ((Tape.of source list).call nested callee pos) outcome fun e later =>
      pos < later ∧ Reached list (.operand (wrapped word e)) frames outcome later := by
  refine (arguments_yields scanned reads word callee here left opened).bind ?_
  rintro values _ ⟨last, closing, further, rfl, there, closed⟩
  rw [Reading.bind_ok (previous_eq there)]
  refine Yields.pure ⟨Nat.lt_succ_of_lt further, ?_⟩
  cases word <;> simpa [Mode.closeCall, wrapped, Expr.span] using closed

/-! Objects -/

theorem stringValue_yields {t : Token} (here : list[pos]? = some t) (kind : t.kind = .string)
    (place : Nat) (refused : StringLiteral.contents? t.text = none →
      outcome = .error (.under t.span (.unpairedSurrogate t.text))) :
    Yields ((Tape.of source list).stringValue t.bare place) outcome fun value later =>
      later = place ∧ StringLiteral.contents? t.text = some value := by
  have more : t.kind ≠ .endOfInput := by rw [kind]; decide
  obtain ⟨text, own, lexeme⟩ := exists_lexeme scanned here more
  rw [kind] at lexeme
  have contents := contents?_eq lexeme
  rw [← own] at contents
  rw [Tape.stringValue, Reading.bind_ok (textUnder_eq scanned here more place),
    Reading.bind_ok (Reading.lift_ok contents)]
  cases found : StringLiteral.contents? t.text with
  | none => exact refused found
  | some value => exact ⟨rfl, rfl⟩

theorem keyName_yields {t : Token} {opening : Span} {earlier : List Property}
    (here : list[pos]? = some t) (noClosing : t.kind ≠ .rightBrace)
    (reached : Reached list (.key opening earlier) frames outcome pos) :
    Yields ((Tape.of source list).keyName t.bare pos) outcome fun name later =>
      later = pos ∧ t.kind ≠ .endOfInput ∧
        Reached list (.colon opening earlier name t.span) frames outcome (pos + 1) := by
  have next {name : String} (key : Grammar.Key t name) :
      Reached list (.colon opening earlier name t.span) frames outcome (pos + 1) :=
    reached.step scanned here (key.step opening earlier frames)
  cases kind : t.kind with
  | identifier =>
    simp only [Tape.keyName, kind]
    rw [textUnder_eq scanned here (by simp [kind])]
    exact ⟨rfl, by decide, next (.plain (.inl kind))⟩
  | number =>
    simp only [Tape.keyName, kind]
    rw [textUnder_eq scanned here (by simp [kind])]
    exact ⟨rfl, by decide, next (.plain (.inr kind))⟩
  | string =>
    simp only [Tape.keyName, kind]
    refine (stringValue_yields scanned here kind pos fun half => ?_).mono ?_
    · refine reached.refused here ?_
      simp [Mode.step, Mode.startProperty, Token.stringContents, kind, half, Except.map]
    · rintro value later ⟨same, contents⟩
      exact ⟨same, by decide, next (.quoted kind contents)⟩
  | rightBrace => exact absurd kind noClosing
  | _ =>
    simp only [Tape.keyName, kind]
    refine unexpected_yields scanned here (reached.refused here ?_)
    simp [Mode.step, Mode.startProperty, kind, Except.map]

/-- The members of an object are read up to the brace that has to close it. -/
theorem members_yields (reads : ReadsFrom list first nested) {rounds : Nat} {opening : Span}
    {earlier : List Property} (behind : first ≤ pos) (enough : list.length ≤ pos + rounds)
    (reached : Reached list (.key opening earlier) frames outcome pos) :
    Yields ((Tape.of source list).members nested rounds pos) outcome fun properties later =>
      pos ≤ later ∧ Closes list .rightBrace
        (Mode.closeObject opening (properties.reverse ++ earlier)) frames outcome later := by
  induction rounds generalizing pos earlier with
  | zero => exact absurd reached.inside (Nat.not_lt_of_le enough)
  | succ rounds ih =>
    obtain ⟨t, here⟩ := reached.exists_token
    rw [Tape.members, Reading.bind_ok (check_eq here _)]
    by_cases closes : t.kind = .rightBrace
    · rw [if_pos (beq_iff_eq.mpr closes)]
      refine Yields.pure ⟨Nat.le_refl pos, t, here, fun other => absurd closes other, fun _ => ?_⟩
      refine reached.step scanned here ?_
      simp [Mode.step, Mode.startProperty, closes, Except.map]
    rw [if_neg (mt beq_iff_eq.mp closes), Reading.bind_ok (current_eq here)]
    refine (keyName_yields scanned here closes reached).bind ?_
    rintro name _ ⟨rfl, more, colon⟩
    rw [Reading.bind_ok (advance_eq here more)]
    obtain ⟨u, there⟩ := colon.exists_token
    have noColon (other : u.kind ≠ .colon) : outcome = .error (u.unexpected (.token .colon)) :=
      colon.refused there (by rw [Mode.step, if_neg other])
    refine (expect_yields scanned there (by decide) noColon).bind ?_
    rintro _ _ ⟨rfl, rfl, isColon⟩
    have value := colon.step scanned there (by rw [Mode.step, if_pos isColon])
    refine (reads (by omega) value).bind ?_
    rintro e middle ⟨further, complete⟩
    obtain ⟨v, there'⟩ := complete.exists_token
    rw [Reading.bind_ok (check_eq there' _)]
    by_cases comma : v.kind = .comma
    · rw [if_pos (beq_iff_eq.mpr comma), Reading.bind_ok (advance_eq there' (by simp [comma]))]
      have next : Reached list (.key opening (.mk name (t.span.through e.span) e :: earlier)) frames
          outcome (middle + 1) :=
        complete.step scanned there' (by simp [Mode.step, Mode.deliver, comma])
      refine (ih (by omega) (by omega) next).bind ?_
      rintro properties later ⟨further', closes⟩
      refine Yields.pure ⟨by omega, ?_⟩
      rwa [List.reverse_cons, List.append_assoc, List.singleton_append]
    · rw [if_neg (mt beq_iff_eq.mp comma)]
      refine Yields.pure ⟨by omega, v, there', fun other => ?_, fun closing => ?_⟩
      · exact complete.refused there' (by simp [Mode.step, Mode.deliver, comma, other])
      · exact complete.step scanned there' (by simp [Mode.step, Mode.deliver, closing])

theorem object_yields (reads : ReadsFrom list (pos + 1) nested) {t : Token}
    (here : list[pos]? = some t) (left : t.kind = .leftBrace)
    (reached : Reached list .value frames outcome pos) :
    Yields ((Tape.of source list).object nested pos) outcome fun e later =>
      pos < later ∧ Reached list (.operand e) frames outcome later := by
  have opened := reached.step scanned here (Grammar.step_brace left)
  rw [Tape.object, Reading.bind_ok (expect_eq here left (by decide))]
  refine (members_yields scanned reads (Nat.le_refl _) length_le_rounds opened).bind ?_
  rintro properties middle ⟨further, closes⟩
  refine (closes_yields scanned (by decide) closes).bind ?_
  rintro _ _ ⟨rfl, closing, -, rfl, closed⟩
  refine Yields.pure ⟨by omega, ?_⟩
  simpa [Mode.closeObject] using closed

/-! Expressions -/

theorem constructed_yields (reads : ReadsFrom list (pos + 1) nested) (word : Span) {name : Token}
    (reached : Reached list (.constructor word name) frames outcome pos) :
    Yields ((Tape.of source list).constructed nested (.identifier name.span name.text) pos) outcome
      fun e later => pos ≤ later ∧
        Reached list (.operand (.construct (word.through e.span) e)) frames outcome later := by
  obtain ⟨t, here⟩ := reached.exists_token
  rw [Tape.constructed, Reading.bind_ok (check_eq here _)]
  by_cases left : t.kind = .leftParen
  · rw [if_pos (beq_iff_eq.mpr left)]
    have opened := reached.step scanned here (by rw [Mode.step, if_pos left])
    refine (call_yields scanned reads (some word) _ here left opened).mono ?_
    rintro e later ⟨further, closed⟩
    exact ⟨Nat.le_of_lt further, closed⟩
  · rw [if_neg (mt beq_iff_eq.mp left)]
    refine Yields.pure ⟨Nat.le_refl pos, reached.congr here ?_⟩
    simp only [Mode.step, if_neg left]
    rfl

theorem construct_yields (reads : ReadsFrom list (pos + 1) nested) {word : Token}
    (reached : Reached list (.keyword word.span) frames outcome pos) :
    Yields ((Tape.of source list).construct nested word.bare pos) outcome fun e later =>
      pos < later ∧ Reached list (.operand e) frames outcome later := by
  obtain ⟨t, here⟩ := reached.exists_token
  rw [Tape.construct, Reading.bind_ok (check_eq here _)]
  by_cases identifier : t.kind = .identifier
  · have more : t.kind ≠ .endOfInput := by simp [identifier]
    rw [if_pos (beq_iff_eq.mpr identifier), Reading.bind_ok (advance_eq here more),
      Reading.bind_ok (textUnder_eq scanned here more _)]
    have named := reached.step scanned here (by rw [Mode.step, if_pos identifier])
    refine (constructed_yields scanned (reads.mono (Nat.le_succ _)) word.span named).bind ?_
    rintro e later ⟨further, operand⟩
    exact Yields.pure ⟨further, operand⟩
  · rw [if_neg (mt beq_iff_eq.mp identifier)]
    refine unexpected_yields scanned here (reached.refused here ?_)
    rw [Mode.step, if_neg identifier]

theorem word_yields (reads : ReadsFrom list (pos + 1) nested) {t : Token}
    (here : list[pos]? = some t) (kind : t.kind = .identifier)
    (reached : Reached list .value frames outcome pos) :
    Yields ((Tape.of source list).word nested t.bare pos) outcome fun e later =>
      pos < later ∧ Reached list (.operand e) frames outcome later := by
  have more : t.kind ≠ .endOfInput := by simp [kind]
  rw [Tape.word, Reading.bind_ok (advance_eq here more),
    Reading.bind_ok (textUnder_eq scanned here more _)]
  by_cases new : t.text = "new"
  · rw [if_pos new]
    have keyword : Reached list (.keyword t.span) frames outcome (pos + 1) :=
      reached.step scanned here
        (by simp [Mode.step, Mode.start, Mode.startPrimary, kind, new, Except.map])
    refine (construct_yields scanned (reads.mono (Nat.le_succ _)) keyword).mono ?_
    rintro e later ⟨further, operand⟩
    exact ⟨Nat.lt_of_succ_lt further, operand⟩
  · rw [if_neg new]
    refine Yields.pure ⟨Nat.lt_succ_self _, reached.step scanned here ?_⟩
    simp [Mode.step, Mode.start, Mode.startPrimary, kind, new, Except.map]

theorem group_yields (reads : ReadsFrom list (pos + 1) nested) {t : Token}
    (here : list[pos]? = some t) (left : t.kind = .leftParen)
    (reached : Reached list .value frames outcome pos) :
    Yields ((Tape.of source list).group nested pos) outcome fun e later =>
      pos < later ∧ Reached list (.operand e) frames outcome later := by
  have opened := reached.step scanned here (Grammar.step_paren left)
  rw [Tape.group, Reading.bind_ok (advance_eq here (by simp [left]))]
  refine (reads (Nat.le_refl _) opened).bind ?_
  rintro e middle ⟨further, complete⟩
  refine (closes_yields scanned (by decide) (complete.closes_group scanned)).bind ?_
  rintro _ _ ⟨rfl, -, -, -, closed⟩
  exact Yields.pure ⟨by omega, closed⟩

theorem primary_yields (reads : ReadsFrom list (pos + 1) nested) {t : Token}
    (here : list[pos]? = some t) (noSign : ¬(t.kind = .plus ∨ t.kind = .minus))
    (reached : Reached list .value frames outcome pos) :
    Yields ((Tape.of source list).primary nested pos) outcome fun e later =>
      pos < later ∧ Reached list (.operand e) frames outcome later := by
  have next {e : Expr} (started : Mode.startPrimary frames t = .ok (.operand e, frames)) :
      Reached list (.operand e) frames outcome (pos + 1) := by
    refine reached.step scanned here ?_
    rw [Mode.step, Mode.start, if_neg noSign, started]
    rfl
  have refused {e : SyntaxError} (fault : Mode.startPrimary frames t = .error e) :
      outcome = .error e := by
    refine reached.refused here ?_
    rw [Mode.step, Mode.start, if_neg noSign, fault]
    rfl
  rw [Tape.primary, Reading.bind_ok (current_eq here)]
  cases kind : t.kind with
  | identifier =>
    simp only [kind]
    exact word_yields scanned reads here kind reached
  | string =>
    simp only [kind]
    rw [Reading.bind_ok (advance_eq here (by simp [kind]))]
    refine (stringValue_yields scanned here kind _ fun half => refused ?_).bind ?_
    · simp [Mode.startPrimary, Token.stringContents, kind, half, Except.map]
    · rintro value _ ⟨rfl, contents⟩
      refine Yields.pure ⟨Nat.lt_succ_self _, next ?_⟩
      simp [Mode.startPrimary, Token.stringContents, kind, contents, Except.map]
  | number =>
    have more : t.kind ≠ .endOfInput := by simp [kind]
    simp only [kind]
    rw [Reading.bind_ok (advance_eq here more), Reading.bind_ok (textUnder_eq scanned here more _)]
    refine Yields.pure ⟨Nat.lt_succ_self _, next ?_⟩
    simp [Mode.startPrimary, kind]
  | regex =>
    have more : t.kind ≠ .endOfInput := by simp [kind]
    obtain ⟨text, own, lexeme⟩ := exists_lexeme scanned here more
    rw [kind] at lexeme
    have parts := splitRegex_eq lexeme
    rw [← own] at parts
    simp only [kind]
    rw [Reading.bind_ok (advance_eq here more), Reading.bind_ok (textUnder_eq scanned here more _),
      Reading.bind_ok (Reading.lift_ok parts)]
    refine Yields.pure ⟨Nat.lt_succ_self _, next ?_⟩
    simp [Mode.startPrimary, kind]
  | leftBrace =>
    simp only [kind]
    exact object_yields scanned reads here kind reached
  | leftBracket =>
    simp only [kind]
    exact array_yields scanned reads here kind reached
  | leftParen =>
    simp only [kind]
    exact group_yields scanned reads here kind reached
  | _ =>
    simp only [kind]
    refine unexpected_yields scanned here (refused ?_)
    simp [Mode.startPrimary, kind]

theorem member_yields {e : Expr} {t : Token} (here : list[pos]? = some t) (kind : t.kind = .dot)
    (reached : Reached list (.operand e) frames outcome pos) :
    Yields ((Tape.of source list).member e pos) outcome fun e later =>
      pos < later ∧ Reached list (.operand e) frames outcome later := by
  have member : Reached list (.member e) frames outcome (pos + 1) :=
    reached.step scanned here (by simp [Mode.step, Mode.afterOperand, kind])
  obtain ⟨name, there⟩ := member.exists_token
  rw [Tape.member, Reading.bind_ok (advance_eq here (by simp [kind])),
    Reading.bind_ok (check_eq there _)]
  by_cases identifier : name.kind = .identifier
  · have more : name.kind ≠ .endOfInput := by simp [identifier]
    rw [if_pos (beq_iff_eq.mpr identifier), Reading.bind_ok (advance_eq there more),
      Reading.bind_ok (textUnder_eq scanned there more _)]
    refine Yields.pure ⟨by omega, member.step scanned there ?_⟩
    rw [Mode.step, if_pos identifier]
  · rw [if_neg (mt beq_iff_eq.mp identifier)]
    refine unexpected_yields scanned there (member.refused there ?_)
    rw [Mode.step, if_neg identifier]

theorem index_yields (reads : ReadsFrom list (pos + 1) nested) {e : Expr} {t : Token}
    (here : list[pos]? = some t) (left : t.kind = .leftBracket)
    (reached : Reached list (.operand e) frames outcome pos) :
    Yields ((Tape.of source list).index nested e pos) outcome fun e later =>
      pos < later ∧ Reached list (.operand e) frames outcome later := by
  have opened : Reached list .value (.index e :: frames) outcome (pos + 1) :=
    reached.step scanned here (by simp [Mode.step, Mode.afterOperand, left])
  rw [Tape.index, Reading.bind_ok (advance_eq here (by simp [left]))]
  refine (reads (Nat.le_refl _) opened).bind ?_
  rintro position middle ⟨further, complete⟩
  refine (closes_yields scanned (by decide) (complete.closes_index scanned)).bind ?_
  rintro _ _ ⟨rfl, closing, -, rfl, closed⟩
  exact Yields.pure ⟨by omega, closed⟩

theorem accesses_yields (reads : ReadsFrom list first nested) {rounds : Nat} {e : Expr}
    (behind : first ≤ pos) (enough : list.length ≤ pos + rounds)
    (reached : Reached list (.operand e) frames outcome pos) :
    Yields ((Tape.of source list).accesses nested rounds e pos) outcome fun e later =>
      pos ≤ later ∧ Reached list (.complete e) frames outcome later := by
  induction rounds generalizing pos e with
  | zero => exact absurd reached.inside (Nat.not_lt_of_le enough)
  | succ rounds ih =>
    -- one access or call, and the others behind it
    have others {access : Reading Expr} (one : Yields (access pos) outcome fun e later =>
        pos < later ∧ Reached list (.operand e) frames outcome later) :
        Yields ((access >>= (Tape.of source list).accesses nested rounds) pos) outcome
          fun e later => pos ≤ later ∧ Reached list (.complete e) frames outcome later := by
      refine one.bind ?_
      rintro e middle ⟨further, operand⟩
      refine (ih (by omega) (by omega) operand).mono ?_
      rintro whole later ⟨further', complete⟩
      exact ⟨by omega, complete⟩
    have ahead := reads.mono (Nat.le_succ_of_le behind)
    obtain ⟨t, here⟩ := reached.exists_token
    rw [Tape.accesses, Reading.bind_ok (current_eq here)]
    cases kind : t.kind with
    | dot =>
      simp only [kind]
      exact others (member_yields scanned here kind reached)
    | leftBracket =>
      simp only [kind]
      exact others (index_yields scanned ahead here kind reached)
    | leftParen =>
      simp only [kind]
      refine others (call_yields scanned ahead none e here kind (reached.step scanned here ?_))
      simp [Mode.step, Mode.afterOperand, kind, OpenList.frame]
    | _ =>
      simp only [kind]
      refine Yields.pure ⟨Nat.le_refl pos, reached.congr here ?_⟩
      simp [Mode.step, Mode.afterOperand, kind]

theorem signed_yields {t : Token} (here : list[pos]? = some t)
    (sign : t.kind = .plus ∨ t.kind = .minus) (reached : Reached list .value frames outcome pos) :
    Yields ((Tape.of source list).signed pos) outcome fun e later =>
      pos < later ∧ Reached list (.complete e) frames outcome later := by
  have more : t.kind ≠ .endOfInput := by rcases sign with kind | kind <;> simp [kind]
  have ahead : Reached list (.signed t) frames outcome (pos + 1) := by
    refine reached.step scanned here ?_
    rw [Mode.step, Mode.start, if_pos sign]
    rfl
  obtain ⟨number, there⟩ := ahead.exists_token
  rw [Tape.signed, Reading.bind_ok (advance_eq here more), Reading.bind_ok (check_eq there _),
    Reading.bind_ok (checkWord_eq scanned there _)]
  by_cases isNumber : number.kind = .number ∨ number.kind = .identifier ∧ number.text = "Infinity"
  · have more' : number.kind ≠ .endOfInput := by
      rcases isNumber with kind | ⟨kind, -⟩ <;> simp [kind]
    rw [if_pos (by simpa using isNumber), Reading.bind_ok (advance_eq there more'),
      Reading.bind_ok (textUnder_eq scanned there more' _)]
    refine Yields.pure ⟨by omega, ahead.step scanned there ?_⟩
    rw [Mode.step, if_pos isNumber]
  · rw [if_neg (by simpa using isNumber)]
    refine unexpected_yields scanned there (ahead.refused there ?_)
    rw [Mode.step, if_neg isNumber]

/-- An expression is read as the automaton reads it, if no more expressions can stand within each
other from there on than the bound on the depth allows. -/
theorem expression_reads {depth : Nat} (enough : list.length ≤ first + depth) :
    ReadsFrom list first ((Tape.of source list).expression depth) := by
  induction depth generalizing first with
  | zero =>
    intro pos frames outcome behind reached
    exact absurd reached.inside (Nat.not_lt_of_le (Nat.le_trans enough behind))
  | succ depth ih =>
    intro pos frames outcome behind reached
    have reads : ReadsFrom list (first + 1) ((Tape.of source list).expression depth) :=
      ih (by omega)
    have ahead := reads.mono (Nat.succ_le_succ behind)
    obtain ⟨t, here⟩ := reached.exists_token
    rw [Tape.expression, Reading.bind_ok (current_eq here)]
    by_cases sign : t.kind = .plus ∨ t.kind = .minus
    · rw [if_pos sign]
      exact signed_yields scanned here sign reached
    · rw [if_neg sign]
      refine (primary_yields scanned ahead here sign reached).bind ?_
      rintro e middle ⟨further, operand⟩
      refine (accesses_yields scanned ahead further length_le_rounds operand).mono ?_
      rintro whole later ⟨further', complete⟩
      exact ⟨Nat.lt_of_lt_of_le further further', complete⟩

end Readers

end MongoShell.Checked
