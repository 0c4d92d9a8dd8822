import MongoShell.Proofs.Checked.Expression

/-! Scripts by recursive descent. Statement by statement the readers get through a script as the
automaton does, so on a source whose offsets fit in 32 bits no step of theirs fails: every byte,
every token and every range that is asked for is there, every sum fits, and every loop ends. -/

namespace MongoShell.Checked

open Script (State)

/-! Tokens of a statement -/

section Tokens

variable {source : List Char} {list : List Token} {pos place : Nat} {t u : Token}
  (scanned : scanFrom .start source = .ok list)

include scanned

/-- The text from one token through a later one is what their spans cut out of the source. -/
theorem textUnder_through (here : list[pos]? = some t) (there : list[place]? = some u)
    (ordered : pos ≤ place) (inner : place + 1 < list.length) (later : Nat) :
    (Tape.of source list).textUnder (t.span.through u.span) later =
      .ok (String.ofList ((t.span.through u.span).slice source), later) := by
  obtain ⟨own, rfl, stretch⟩ := stretch_of_scanFrom scanned
  rw [List.length_append, List.length_singleton] at inner
  rw [List.getElem?_append_left (by omega)] at here there
  have parted : own =
      own.take pos ++ ((own.drop pos).take (place - pos + 1) ++ own.drop (place + 1)) := by
    have count : pos + (place - pos + 1) = place + 1 := by omega
    rw [← count, ← List.drop_drop, List.take_append_drop, List.take_append_drop]
  have head : ((own.drop pos).take (place - pos + 1)).head? = some t := by
    rw [List.head?_take, if_neg (Nat.succ_ne_zero _), List.head?_drop, here]
  have ends : ((own.drop pos).take (place - pos + 1)).getLast? = some u := by
    rw [List.getLast?_take, if_neg (Nat.succ_ne_zero _), Nat.add_sub_cancel, List.getElem?_drop,
      Nat.add_sub_cancel' ordered, there, Option.some_or]
  rw [parted] at stretch
  obtain ⟨front, middle, back, same, inside, start, stop⟩ := stretch.middle head ends
  have within : t.span.stop ≤ u.span.stop := by
    rw [stop]
    exact inside.stop_le (List.mem_of_head? head)
  have cut := slice_through back start stop within
  rw [Position.offset_start] at start
  rw [← Position.after_append, Position.offset_start] at stop
  refine Reading.lift_ok ?_
  rw [same, cut]
  change slice (utf8 (front ++ (middle ++ back))) t.span.start (max u.span.stop t.span.stop) = _
  rw [Nat.max_eq_left within, start, stop, slice_append]

end Tokens

/-! Places that the automaton of the scripts reaches -/

/-- From a state on, the automaton comes to an outcome with the tokens that are left at a place; and
there are some. -/
structure Stands (source : List Char) (list : List Token) (state : State)
    (outcome : Except SyntaxError (List Statement)) (pos : Nat) : Prop where
  inside : pos < list.length
  fold_eq : ((list.drop pos).foldlM (State.step source) state).map (·.statements.reverse) = outcome

namespace Stands

variable {source : List Char} {list : List Token} {state next : State} {pos : Nat} {t : Token}
  {outcome : Except SyntaxError (List Statement)}

theorem exists_token (stands : Stands source list state outcome pos) : ∃ t, list[pos]? = some t :=
  ⟨_, List.getElem?_eq_getElem stands.inside⟩

theorem cons_eq (stands : Stands source list state outcome pos) (here : list[pos]? = some t) :
    ((t :: list.drop (pos + 1)).foldlM (State.step source) state).map (·.statements.reverse) =
      outcome := by
  obtain ⟨inside, rfl⟩ := List.getElem?_eq_some_iff.mp here
  rw [← List.drop_eq_getElem_cons inside]
  exact stands.fold_eq

theorem refused (stands : Stands source list state outcome pos) (here : list[pos]? = some t)
    {e : SyntaxError} (stepped : state.step source t = .error e) : outcome = .error e := by
  rw [← stands.cons_eq here, List.foldlM_cons, stepped]
  rfl

theorem congr (stands : Stands source list state outcome pos) (here : list[pos]? = some t)
    (same : state.step source t = next.step source t) : Stands source list next outcome pos := by
  refine ⟨stands.inside, ?_⟩
  obtain ⟨inside, rfl⟩ := List.getElem?_eq_some_iff.mp here
  rw [← stands.fold_eq, List.drop_eq_getElem_cons inside, List.foldlM_cons, List.foldlM_cons, same]

theorem step (scanned : scanFrom .start source = .ok list)
    (stands : Stands source list state outcome pos) (here : list[pos]? = some t)
    (more : t.kind ≠ .endOfInput) (stepped : state.step source t = .ok next) :
    Stands source list next outcome (pos + 1) :=
  ⟨succ_lt_length scanned here more, by rw [← stands.cons_eq here, Outcome.foldlM_cons_ok stepped]⟩

end Stands

section Statements

variable {source : List Char} {list : List Token} {pos : Nat} {t : Token} {done : List Statement}
  {outcome : Except SyntaxError (List Statement)} (scanned : scanFrom .start source = .ok list)

include scanned

/-- Inside an expression the script goes on as its expression does: it is refused with it, or it
stands behind it in the end. -/
theorem stands_behind {first last : Token} {mode : Mode} {frames : List Frame}
    {read : Except SyntaxError (Expr × List Token)} (here : list[pos]? = some last)
    (reached : Reached list mode frames read (pos + 1))
    (stands : Stands source list ⟨done, .inside first last mode frames⟩ outcome (pos + 1)) :
    (∃ e, read = .error e ∧ outcome = .error e) ∨
      ∃ e place final, pos ≤ place ∧ list[place]? = some final ∧
        read = .ok (e, list.drop (place + 1)) ∧ Stands source list
          ⟨.between source first final (.ofExpr e) :: done, .behind final⟩ outcome (place + 1) := by
  induction room : list.length - pos using Nat.strong_induction_on
    generalizing pos last mode frames with
  | _ room ih =>
    subst room
    obtain ⟨t, there⟩ := reached.exists_token
    have within := reached.inside
    cases stepped : mode.step frames t with
    | error e =>
      refine .inl ⟨e, reached.refused there stepped, stands.refused there ?_⟩
      simp only [State.step, State.continueExpression, stepped]
    | ok progress =>
      cases progress with
      | reading next others =>
        have further := reached.step scanned there stepped
        have more : t.kind ≠ .endOfInput := by
          intro final
          exact absurd further.inside (by rw [length_of_endOfInput scanned there final]; omega)
        have ahead : Stands source list ⟨done, .inside first t next others⟩ outcome (pos + 1 + 1) :=
          stands.step scanned there more
            (by simp only [State.step, State.continueExpression, stepped])
        rcases ih (list.length - (pos + 1)) (by omega) there further ahead rfl with
          refused | ⟨e, place, final, behind, rest⟩
        · exact .inl refused
        · exact .inr ⟨e, place, final, Nat.le_of_succ_le behind, rest⟩
      | finished e =>
        refine .inr ⟨e, pos, last, Nat.le_refl _, here, ?_, stands.congr there ?_⟩
        · obtain ⟨inside, rfl⟩ := List.getElem?_eq_some_iff.mp there
          rw [← reached.run_eq, List.drop_eq_getElem_cons inside, Mode.run, stepped]
        · simp only [State.step, State.continueExpression, stepped]
          rfl

/-- The first token of an expression statement is the first one of its expression. -/
theorem stands_inside {u : Token} {read : Except SyntaxError (Expr × List Token)}
    (here : list[pos]? = some t) (there : list[pos + 1]? = some u) (starts : ¬t.Ends)
    (noCommand : ¬IsCommand t u) (reached : Reached list .value [] read pos)
    (stands : Stands source list ⟨done, .between⟩ outcome pos) :
    (∃ e, read = .error e ∧ outcome = .error e) ∨ ∃ mode frames,
      Reached list mode frames read (pos + 1) ∧
        Stands source list ⟨done, .inside t t mode frames⟩ outcome (pos + 1) := by
  have more : t.kind ≠ .endOfInput := fun last => starts (.inr last)
  have start : State.step source ⟨done, .between⟩ t =
      if t.kind = .identifier ∧ t.text = "show" then .ok ⟨done, .shown t⟩
      else (Mode.start [] t).map fun place => ⟨done, .inside t t place.1 place.2⟩ :=
    if_neg starts
  by_cases word : t.kind = .identifier ∧ t.text = "show"
  · rw [if_pos word] at start
    have plain : u.kind ≠ .identifier := fun kind => noCommand ⟨word.1, word.2, kind⟩
    have shown := stands.step scanned here more start
    have operand : Mode.value.step [] t =
        .ok (.reading (.operand (.identifier t.span t.text)) []) := by
      simp [Mode.step, Mode.start, Mode.startPrimary, Mode.wordValue, word, Except.map]
    exact .inr ⟨_, _, reached.step scanned here operand,
      shown.congr there (Script.step_shown source plain done t)⟩
  · rw [if_neg word] at start
    cases started : Mode.start [] t with
    | error e =>
      rw [started] at start
      refine .inl ⟨e, reached.refused here ?_, stands.refused here start⟩
      rw [Mode.step, started]
      rfl
    | ok place =>
      obtain ⟨mode, frames⟩ := place
      rw [started] at start
      refine .inr ⟨mode, frames, reached.step scanned here ?_, stands.step scanned here more start⟩
      rw [Mode.step, started]
      rfl

/-- A statement has been read from a token up to the one in front of a place. -/
def Passed (source : List Char) (list : List Token) (done : List Statement)
    (outcome : Except SyntaxError (List Statement)) (pos : Nat) (t : Token) (kind : StatementKind)
    (later : Nat) : Prop :=
  ∃ place last, later = place + 1 ∧ pos ≤ place ∧ list[place]? = some last ∧
    Stands source list ⟨.between source t last kind :: done, .behind last⟩ outcome later

theorem command_yields {u : Token} (here : list[pos]? = some t) (there : list[pos + 1]? = some u)
    (words : IsCommand t u) (stands : Stands source list ⟨done, .between⟩ outcome pos) :
    Yields ((Tape.of source list).command pos) outcome (Passed source list done outcome pos t) := by
  obtain ⟨identifier, isShow, isWord⟩ := words
  have more : t.kind ≠ .endOfInput := by simp [identifier]
  have more' : u.kind ≠ .endOfInput := by simp [isWord]
  have shown : Stands source list ⟨done, .shown t⟩ outcome (pos + 1) :=
    stands.step scanned here more (by simp [State.step, State.start, identifier, isShow])
  have behind := shown.step scanned there more' (if_pos isWord)
  have through := textUnder_through scanned here there (Nat.le_succ pos) behind.inside (pos + 1 + 1)
  rw [Tape.command, Reading.bind_ok (advance_eq here more),
    Reading.bind_ok (advance_eq there more'),
    Reading.bind_ok through, Reading.bind_ok (textUnder_eq scanned there more' _)]
  exact Yields.pure ⟨pos + 1, u, rfl, Nat.le_succ pos, there, behind⟩

theorem expressionStatement_yields {u : Token} (here : list[pos]? = some t)
    (there : list[pos + 1]? = some u) (starts : ¬t.Ends) (noCommand : ¬IsCommand t u)
    (stands : Stands source list ⟨done, .between⟩ outcome pos) :
    Yields ((Tape.of source list).expression (Tape.of source list).tokens.length pos) outcome
      fun e later => Passed source list done outcome pos t (.ofExpr e) later := by
  have reached : Reached list .value [] (Mode.value.run [] (list.drop pos)) pos :=
    ⟨stands.inside, rfl⟩
  have cases : (∃ e, Mode.value.run [] (list.drop pos) = .error e ∧ outcome = .error e) ∨
      ∃ e place final, pos ≤ place ∧ list[place]? = some final ∧
        Mode.value.run [] (list.drop pos) = .ok (e, list.drop (place + 1)) ∧ Stands source list
          ⟨.between source t final (.ofExpr e) :: done, .behind final⟩ outcome (place + 1) := by
    rcases stands_inside scanned here there starts noCommand reached stands with
      refused | ⟨mode, frames, further, ahead⟩
    · exact .inl refused
    · exact stands_behind scanned here further ahead
  refine (expression_reads scanned length_le_rounds (Nat.le_refl pos) reached).imp ?_ ?_
  · intro e refused
    rcases cases with ⟨e', same, fault⟩ | ⟨e', place, final, -, -, same, -⟩
    · rw [same] at refused
      cases refused
      exact fault
    · rw [same] at refused
      cases refused
  · rintro e later ⟨further, complete⟩
    rw [complete.finished] at cases
    rcases cases with ⟨_, same, -⟩ | ⟨e', place, final, behind, found, same, stands⟩
    · cases same
    · obtain ⟨rfl, left⟩ := Prod.mk.inj (Except.ok.inj same)
      have lengths := congrArg List.length left
      have within := stands.inside
      have within' := complete.inside
      rw [List.length_drop, List.length_drop] at lengths
      obtain rfl : later = place + 1 := by omega
      exact ⟨place, final, rfl, behind, found, stands⟩

theorem checkCommand_eq {u : Token} (here : list[pos]? = some t) (there : list[pos + 1]? = some u) :
    ∃ whether, (Tape.of source list).checkCommand pos = .ok (whether, pos) ∧
      (whether = true ↔ IsCommand t u) := by
  rw [Tape.checkCommand, Reading.bind_ok (checkWord_eq scanned here "show")]
  by_cases word : t.kind = .identifier ∧ t.text = "show"
  · refine ⟨u.kind == .identifier, ?_, ?_⟩
    · rw [if_pos (decide_eq_true word), Reading.bind_ok (peekKind_eq there)]
      rfl
    · simp [IsCommand, word]
  · refine ⟨false, ?_, ?_⟩
    · rw [if_neg (by simpa using word)]
      rfl
    · simp only [Bool.false_eq_true, false_iff]
      exact fun words => word ⟨words.1, words.2.1⟩

theorem statement_yields (here : list[pos]? = some t) (starts : ¬t.Ends)
    (stands : Stands source list ⟨done, .between⟩ outcome pos) :
    Yields ((Tape.of source list).statement pos) outcome fun s later =>
      ∃ place last, later = place + 1 ∧ pos ≤ place ∧ list[place]? = some last ∧
        Stands source list ⟨s :: done, .behind last⟩ outcome later := by
  have more : t.kind ≠ .endOfInput := fun last => starts (.inr last)
  obtain ⟨u, there⟩ : ∃ u, list[pos + 1]? = some u :=
    ⟨_, List.getElem?_eq_getElem (succ_lt_length scanned here more)⟩
  have kinds : Yields ((Tape.of source list).statementKind pos) outcome
      (Passed source list done outcome pos t) := by
    obtain ⟨whether, checked, means⟩ := checkCommand_eq scanned here there
    rw [Tape.statementKind, Reading.bind_ok checked]
    by_cases words : IsCommand t u
    · rw [if_pos (means.mpr words)]
      exact command_yields scanned here there words stands
    · rw [if_neg (mt means.mp words)]
      refine (expressionStatement_yields scanned here there starts words stands).bind ?_
      exact fun _ _ passed => Yields.pure passed
  rw [Tape.statement, Reading.bind_ok (current_eq here)]
  refine kinds.bind ?_
  rintro kind _ ⟨place, last, rfl, behind, found, stands⟩
  rw [Reading.bind_ok (previous_eq found),
    Reading.bind_ok (textUnder_through scanned here found behind stands.inside _)]
  exact Yields.pure ⟨place, last, rfl, behind, found, stands⟩

/-! Statements -/

theorem separators_yields {rounds : Nat} (enough : list.length ≤ pos + rounds)
    (stands : Stands source list ⟨done, .between⟩ outcome pos) :
    Yields ((Tape.of source list).separators rounds pos) outcome fun _ later =>
      pos ≤ later ∧ Stands source list ⟨done, .between⟩ outcome later ∧
        ∃ t, list[later]? = some t ∧ t.kind ≠ .semicolon := by
  induction rounds generalizing pos with
  | zero => exact absurd stands.inside (Nat.not_lt_of_le enough)
  | succ rounds ih =>
    obtain ⟨t, here⟩ := stands.exists_token
    rw [Tape.separators, Reading.bind_ok (check_eq here _)]
    by_cases semicolon : t.kind = .semicolon
    · have more : t.kind ≠ .endOfInput := by simp [semicolon]
      have next : Stands source list ⟨done, .between⟩ outcome (pos + 1) :=
        stands.step scanned here more (if_pos (.inl semicolon))
      rw [if_pos (beq_iff_eq.mpr semicolon), Reading.bind_ok (advance_eq here more)]
      refine (ih (by omega) next).mono ?_
      rintro _ later ⟨further, rest⟩
      exact ⟨Nat.le_of_succ_le further, rest⟩
    · rw [if_neg (mt beq_iff_eq.mp semicolon)]
      exact Yields.pure ⟨Nat.le_refl pos, stands, t, here, semicolon⟩

theorem separation_yields {last : Token} (found : list[pos]? = some last)
    (stands : Stands source list ⟨done, .behind last⟩ outcome (pos + 1)) :
    Yields ((Tape.of source list).separation (pos + 1)) outcome fun _ later =>
      later = pos + 1 ∧ Stands source list ⟨done, .between⟩ outcome later := by
  obtain ⟨t, here⟩ := stands.exists_token
  rw [Tape.separation, Reading.bind_ok (current_eq here)]
  by_cases ends : t.kind = .semicolon ∨ t.kind = .endOfInput
  · rw [if_pos ends]
    refine Yields.pure ⟨rfl, stands.congr here ?_⟩
    simp only [State.step, State.separate_ends ends, State.start_ends ends]
  rw [if_neg ends, Reading.bind_ok (previous_eq found)]
  by_cases line : t.span.line = last.span.line
  · rw [if_pos line]
    refine unexpected_yields scanned here (stands.refused here ?_)
    simp only [State.step, State.separate]
    rw [if_neg ends, if_pos line]
  · rw [if_neg line]
    refine Yields.pure ⟨rfl, stands.congr here ?_⟩
    simp only [State.step, State.separate]
    rw [if_neg ends, if_neg line]
    rfl

theorem statements_yields {rounds : Nat} (enough : list.length ≤ pos + rounds)
    (stands : Stands source list ⟨done, .between⟩ outcome pos) :
    Yields ((Tape.of source list).statements rounds pos) outcome fun more _ =>
      outcome = .ok (done.reverse ++ more) := by
  induction rounds generalizing pos done with
  | zero => exact absurd stands.inside (Nat.not_lt_of_le enough)
  | succ rounds ih =>
    rw [Tape.statements]
    refine (separators_yields scanned length_le_rounds stands).bind ?_
    rintro _ middle ⟨further, stands, t, here, noSemicolon⟩
    rw [Reading.bind_ok (check_eq here _)]
    by_cases last : t.kind = .endOfInput
    · rw [if_pos (beq_iff_eq.mpr last)]
      refine Yields.pure ?_
      have none_left : list.drop (middle + 1) = [] :=
        List.drop_eq_nil_of_le (Nat.le_of_eq (length_of_endOfInput scanned here last))
      have whole := stands.cons_eq here
      rw [none_left, Outcome.foldlM_cons_ok (if_pos (.inr last))] at whole
      rw [← whole, List.append_nil]
      rfl
    · rw [if_neg (mt beq_iff_eq.mp last)]
      refine (statement_yields scanned here (not_or_intro noSemicolon last) stands).bind ?_
      rintro s _ ⟨place, final, rfl, behind, found, stands⟩
      refine (separation_yields scanned found stands).bind ?_
      rintro _ _ ⟨rfl, stands⟩
      refine (ih (by omega) stands).bind ?_
      rintro others _ all
      refine Yields.pure ?_
      rw [all, List.reverse_cons, List.append_assoc, List.singleton_append]

end Statements

/-! Sources -/

/-- The statements that are read from the tokens of a source are those that the automaton makes of
them. -/
theorem statements_eq {source : List Char} {list : List Token}
    (scanned : scanFrom .start source = .ok list) :
    ((Tape.of source list).statements (Tape.of source list).tokens.length 0).map (·.1) =
      (Script.ofTokens source list).mapError .refused := by
  have nonempty : 0 < list.length := by
    obtain ⟨own, last, rfl, -⟩ := (laidOut_of_scanFrom scanned).ends
    simp
  have stands : Stands source list ⟨[], .between⟩ (Script.ofTokens source list) 0 :=
    ⟨nonempty, rfl⟩
  have yields :
      Yields ((Tape.of source list).statements (Tape.of source list).tokens.length 0) _ _ :=
    statements_yields scanned length_le_rounds stands
  cases result : (Tape.of source list).statements (Tape.of source list).tokens.length 0 with
  | ok read =>
    rw [result] at yields
    have whole : Script.ofTokens source list = .ok read.1 := yields
    rw [whole]
    rfl
  | error stop =>
    rw [result] at yields
    cases stop with
    | refused e =>
      have whole : Script.ofTokens source list = .error e := yields
      rw [whole]
      rfl
    | breach b => exact absurd yields id

/-- On a source whose offsets fit in 32 bits the checked reading comes to what the reading comes to:
no byte or token is fetched that is not there, no range is cut out that is not in order, within its
text and between characters, no sum or difference leaves 32 bits, two halves of a surrogate pair
make a code point above U+FFFF, no string ends with a backslash, and no loop is broken off. -/
theorem script_never_breaches (source : String) (short : source.utf8ByteSize < 2 ^ 32 - 1) :
    script source = (Script.ofSource source).mapError .refused ∧
      ∀ b, script source ≠ .error (.breach b) := by
  have same : script source = (Script.ofSource source).mapError .refused := by
    have short' : (utf8 source.toList).length < 2 ^ 32 - 1 := by
      rwa [length_utf8, byteCount_toList]
    rw [script, Script.ofSource, MongoShell.tokens]
    simp only [tokens_eq short']
    cases scanned : scanFrom .start source.toList with
    | error e => rfl
    | ok list => exact statements_eq scanned
  refine ⟨same, fun b breached => ?_⟩
  rw [same] at breached
  cases outcome : Script.ofSource source with
  | error e =>
    rw [outcome] at breached
    cases breached
  | ok statements =>
    rw [outcome] at breached
    cases breached

/-- A command, a chain of calls and a string, with characters of two bytes in a string, a class and
a comment, and one above U+FFFF by its halves. -/
def beyondAscii : String := "show dbs;db['é'].f([-1,/[/é]/i])//ü\n'\\ud83d\\ude00\\\\'"

theorem beyondAscii_never_breaches :
    (script beyondAscii = (Script.ofSource beyondAscii).mapError .refused ∧
      ∀ b, script beyondAscii ≠ .error (.breach b)) ∧
    ((script beyondAscii).map (·.map (·.text))).toOption =
      some ["show dbs", "db['é'].f([-1,/[/é]/i])", "'\\ud83d\\ude00\\\\'"] := by
  have short : beyondAscii.utf8ByteSize < 2 ^ 32 - 1 := by decide
  exact ⟨script_never_breaches _ short, by decide +kernel⟩

end MongoShell.Checked
