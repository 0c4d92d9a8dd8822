import Mathlib
import MongoShell.Operation.OfStatement
import MongoShell.Proofs.Script.Abreast
import MongoShell.Proofs.Script.Ends
import MongoShell.Proofs.Statement.Alike
import MongoShell.Proofs.Token.Further

/-! Scripts that are joined. A semicolon on a line of its own parts two scripts whatever they end
and start with: nothing of the one reaches across it, and the other is read behind it as it is
alone. -/

namespace MongoShell

open Outcome (Matches)

/-! The two scripts and the joined one -/

/-- The same statement at another place. -/
structure Statement.Same (statement other : Statement) : Prop where
  text : other.text = statement.text
  kind : other.kind.eraseSpans = statement.kind.eraseSpans

namespace Script

/-- A semicolon on a line of its own. -/
def separator : List Char := ['\n', ';', '\n']

/-- The text of two scripts with a semicolon on a line of its own between them. -/
def joined (first second : String) : String := first ++ "\n;\n" ++ second

theorem joined_toList (first second : String) :
    (joined first second).toList = (first.toList ++ separator) ++ second.toList := by
  simp [joined, separator]

/-- Two scripts go abreast where their tokens say the same, share lines in both or in neither, and
stand around the same texts. -/
theorem Paired.of_slices {source source' : List Char} {pair : Token → Token → Prop}
    (word : ∀ {t u}, pair t u → u.word = t.word)
    (lines : ∀ {a a' b b'}, pair a a' → pair b b' →
      (a'.span.line = b'.span.line ↔ a.span.line = b.span.line))
    (slices : ∀ {first first' last last'}, pair first first' → pair last last' →
      (first'.span.through last'.span).slice source' =
        (first.span.through last.span).slice source) :
    Paired False source source' pair Statement.Same where
  word := word
  breaks firsts lasts apart := mt (lines firsts lasts).mp apart
  joins _ _ _ _ _ firsts lasts := (lines firsts lasts).mpr
  command words names := by
    have text := Abreast.text_eq (word names)
    constructor <;> simp only [Statement.between, slices words names, text]
  expression firsts lasts same :=
    ⟨by simp only [Statement.between, slices firsts lasts], (StatementKind.ofExpr_congr same).symm⟩

/-- The tokens of a script are those of a text in front of others as well. -/
theorem paired_front (source more : List Char) :
    Paired False source (source ++ more) (fun t u => u = t ∧ t.Within source) Statement.Same := by
  apply Paired.of_slices
  · rintro t u ⟨rfl, -⟩
    rfl
  · rintro a a' b b' ⟨rfl, -⟩ ⟨rfl, -⟩
    rfl
  · rintro first first' last last' ⟨rfl, firsts⟩ ⟨rfl, lasts⟩
    exact firsts.slice_append lasts more

/-- The tokens of a script stand further down behind some lines. -/
theorem paired_down (front source : List Char) (lines : Nat) :
    Paired False source (front ++ source) (fun t u => u = t.down (byteCount front) lines)
      Statement.Same := by
  apply Paired.of_slices
  · rintro t u rfl
    exact Token.word_down _ _ t
  · rintro a a' b b' rfl rfl
    simp [Token.down, Span.down]
  · rintro first first' last last' rfl rfl
    simp only [Token.down, Span.through_down, Span.slice_down]

/-- A separator is scanned as a semicolon. -/
theorem stretch_separator (place : Position) (rest : List Char) :
    ∃ semicolon, semicolon.kind = .semicolon ∧ Stretch place separator rest [semicolon] := by
  have feed (rest : List Char) : Starts ['\n'] rest .trivia := starts_blank rfl rest
  have mark (rest : List Char) : Starts [';'] rest (.token .semicolon) := ⟨';', [], rfl, rfl⟩
  exact ⟨_, rfl, .trivia (feed _) (.token (mark _) (.trivia (feed _) .nil))⟩

variable {source : List Char}

/-- The tokens of a script and a separator in front of more text, which is scanned as it is alone,
further down. -/
theorem scanFrom_separated {tokens : List Token} (done : scanFrom .start source = .ok tokens)
    (more : List Char) :
    ∃ own final semicolon, tokens = own ++ [final] ∧ final.kind = .endOfInput ∧
      semicolon.kind = .semicolon ∧ (∀ t ∈ tokens, t.Within source) ∧
      scanFrom .start ((source ++ separator) ++ more) =
        (((scanFrom .start more).map (List.map (Token.down (byteCount (source ++ separator))
          ((source ++ separator).count '\n')))).mapError
            (SyntaxError.down ((source ++ separator).count '\n'))).map
              ((own ++ [semicolon]) ++ ·) := by
  obtain ⟨own, rfl, stretch⟩ := stretch_of_scanFrom done
  have feed : ∀ c ∈ (separator ++ more).head?, c = '\n' := by
    rintro c ⟨⟩
    rfl
  obtain ⟨semicolon, kind, apart⟩ := stretch_separator (Position.start.after source) more
  refine ⟨own, _, semicolon, rfl, rfl, kind, ?_, ?_⟩
  · intro t member
    rcases List.mem_append.mp member with inner | last
    · exact stretch.within inner
    · obtain rfl := List.mem_singleton.mp last
      have stop : (Position.start.after source).offset = byteCount source :=
        Position.offset_start source
      exact ⟨⟨source, [], (List.append_nil source).symm, stop⟩, stop.le⟩
  · have lines := Position.after_lines (source ++ ['\n', ';'])
    have whole : (source ++ ['\n', ';']) ++ ['\n'] = source ++ separator := by simp [separator]
    rw [whole] at lines
    rw [((stretch.beforeLine feed).append apart).scanFrom_append, lines, scanFrom_down]

/-- A script in front of a separator has been read as it is read alone. -/
theorem foldlM_separated {own : List Token} {final semicolon : Token} {last : State}
    (finishes : final.kind = .endOfInput) (parts : semicolon.kind = .semicolon)
    (within : ∀ t ∈ own ++ [final], t.Within source)
    (run : (own ++ [final]).foldlM (State.step source) State.initial = .ok last)
    (more : List Char) :
    ∃ statements, List.Forall₂ Statement.Same last.statements statements ∧
      (own ++ [semicolon]).foldlM (State.step (source ++ more)) State.initial =
        .ok ⟨statements, .between⟩ := by
  have pairs : List.Forall₂ (fun t u => u = t ∧ t.Within source) (own ++ [final])
      (own ++ [final]) :=
    List.forall₂_same.mpr fun t member => ⟨rfl, within t member⟩
  have begins : State.initial.Alike (fun t u => u = t ∧ t.Within source) Statement.Same []
      State.initial := State.initial_alike []
  obtain ⟨last', run', ⟨statements, whole, same⟩, -⟩ :=
    State.foldlM_alike (paired_front source more) begins pairs run
  rw [List.append_nil] at whole
  subst whole
  rw [List.foldlM_append] at run'
  obtain ⟨middle, before, ended⟩ := (Outcome.bind_eq_ok _ _ _).mp run'
  rw [List.foldlM_cons] at ended
  obtain ⟨next, stepped, rest⟩ := (Outcome.bind_eq_ok _ _ _).mp ended
  cases rest
  obtain ⟨between, parted⟩ := State.step_ends (.inr finishes) (.inl parts) stepped
  refine ⟨last'.statements, same, ?_⟩
  rw [List.foldlM_append, before]
  change [semicolon].foldlM (State.step (source ++ more)) middle = _
  rw [Outcome.foldlM_cons_ok parted, ← between]
  rfl

section Down

variable {tokens : List Token} (front : List Char) (lines : Nat) (statements : List Statement)

/-- Behind some lines and the statements there, a script is read as it is alone. -/
theorem foldlM_down {last : State}
    (run : tokens.foldlM (State.step source) State.initial = .ok last) :
    ∃ more stage, List.Forall₂ Statement.Same last.statements more ∧
      (tokens.map (Token.down (byteCount front) lines)).foldlM (State.step (front ++ source))
        ⟨statements, .between⟩ = .ok ⟨more ++ statements, stage⟩ := by
  have pairs : List.Forall₂ (fun t u => u = t.down (byteCount front) lines) tokens
      (tokens.map (Token.down (byteCount front) lines)) :=
    List.forall₂_map_right_iff.mpr (List.forall₂_same.mpr fun _ _ => rfl)
  obtain ⟨⟨_, stage⟩, run', ⟨more, rfl, same⟩, -⟩ :=
    State.foldlM_alike (paired_down front source lines) (State.initial_alike statements) pairs run
  exact ⟨more, stage, same, run'⟩

theorem foldlM_down_error {e : SyntaxError}
    (failed : tokens.foldlM (State.step source) State.initial = .error e) :
    (tokens.map (Token.down (byteCount front) lines)).foldlM (State.step (front ++ source))
      ⟨statements, .between⟩ = .error (e.down lines) := by
  have pairs : List.Forall₂ (fun t u => u = t.down (byteCount front) lines) tokens
      (tokens.map (Token.down (byteCount front) lines)) :=
    List.forall₂_map_right_iff.mpr (List.forall₂_same.mpr fun _ _ => rfl)
  obtain ⟨t, u, fault, rfl, rfl, failed'⟩ := State.foldlM_fails
    (paired_down front source lines) not_false (State.initial_alike statements) pairs failed
  exact failed'

end Down

variable {p q : String} {first : List Statement}

/-- A script behind an accepted one and a separator is read as it is alone: its statements come
behind those of the first, or its error is reported, further down. -/
theorem ofSource_joined (read : ofSource p = .ok first) :
    ∃ own, List.Forall₂ Statement.Same first own ∧
      (∀ second, ofSource q = .ok second → ∃ more, List.Forall₂ Statement.Same second more ∧
        ofSource (joined p q) = .ok (own ++ more)) ∧
      ∀ e, ofSource q = .error e →
        ofSource (joined p q) = .error (e.down ((p.toList ++ separator).count '\n')) := by
  obtain ⟨tokens, scanned, done⟩ := (ofSource_eq_ok p first).mp read
  obtain ⟨last, run, rfl⟩ := (Outcome.map_eq_ok _ _ _).mp done
  obtain ⟨own, final, semicolon, rfl, finishes, parts, within, front⟩ :=
    scanFrom_separated scanned q.toList
  obtain ⟨statements, same, before⟩ := foldlM_separated finishes parts within run
    (separator ++ q.toList)
  rw [← joined_toList] at front
  rw [← List.append_assoc, ← joined_toList] at before
  have behind (others : List Token) : ((own ++ [semicolon]) ++ others).foldlM
      (State.step (joined p q).toList) State.initial =
        others.foldlM (State.step (joined p q).toList) ⟨statements, .between⟩ := by
    rw [List.foldlM_append, before]
    rfl
  refine ⟨statements.reverse, List.forall₂_reverse_iff.mpr same, ?_, ?_⟩
  · intro second accepted
    obtain ⟨others, scanned', done'⟩ := (ofSource_eq_ok q second).mp accepted
    obtain ⟨last', run', rfl⟩ := (Outcome.map_eq_ok _ _ _).mp done'
    obtain ⟨more, stage, same', run'⟩ := foldlM_down (p.toList ++ separator)
      ((p.toList ++ separator).count '\n') statements run'
    rw [← joined_toList] at run'
    rw [scanned'] at front
    refine ⟨more.reverse, List.forall₂_reverse_iff.mpr same',
      (ofSource_eq_ok _ _).mpr ⟨_, front, ?_⟩⟩
    rw [ofTokens, behind, run']
    simp [Except.map]
  · intro e rejected
    rcases (ofSource_eq_error q e).mp rejected with failed | ⟨others, scanned', failed⟩
    · rw [failed] at front
      exact (ofSource_eq_error _ _).mpr (.inl front)
    · have failed' := foldlM_down_error (p.toList ++ separator)
        ((p.toList ++ separator).count '\n') statements ((Outcome.map_eq_error _ _ _).mp failed)
      rw [← joined_toList] at failed'
      rw [scanned'] at front
      refine (ofSource_eq_error _ _).mpr (.inr ⟨_, front, ?_⟩)
      rw [ofTokens, behind, failed']
      rfl

end Script

/-! The operations -/

/-- The operations of two scripts, one script after the other, the first failure winning. -/
def Operation.ofScripts (f g : Fresh) (p q : String) :
    Except StatementError (List Operation × List Operation) := do
  let first ← ofScript f p
  let second ← ofScript g q
  return (first, second)

/-- The operations of two scripts, one behind the other, and those of one script. -/
def Operation.AlikeJoined (f g h : Fresh) (both : List Operation × List Operation)
    (operations : List Operation) : Prop :=
  ∃ first second, operations = first ++ second ∧
    List.Forall₂ (Operation.Alike f h) both.1 first ∧
    List.Forall₂ (Operation.Alike g h) both.2 second

theorem Operation.mapM_same {f g : Fresh} {statements others : List Statement}
    (same : List.Forall₂ Statement.Same statements others) :
    Matches (List.Forall₂ (Operation.Alike f g))
      (statements.mapM (Statement.operation Registry.builtin f))
      (others.mapM (Statement.operation Registry.builtin g)) :=
  Matches.mapM same fun _ _ held =>
    Statement.operation_alike Registry.builtin held.kind.symm held.text.symm

/-- Joining scripts joins their statements. Behind an accepted script and a semicolon on a line of
its own, a script that is accepted is read as the same statements, and one that is rejected is
rejected for the same fault in the same column, as many lines further down as stand before it. So
the operations of the joined script are those of the two in turn, or the first failure among them.
Values made up on the way are compared by their constructor. -/
theorem Script.joins {p q : String} {first : List Statement}
    (read : Script.ofSource p = .ok first) :
    (∀ second, Script.ofSource q = .ok second → ∃ own more,
      Script.ofSource (p ++ "\n;\n" ++ q) = .ok (own ++ more) ∧
        List.Forall₂ Statement.Same first own ∧ List.Forall₂ Statement.Same second more) ∧
      (∀ e, Script.ofSource q = .error e → Script.ofSource (p ++ "\n;\n" ++ q) =
        .error ⟨e.line + (p ++ "\n;\n").toList.count '\n', e.column, e.fault⟩) ∧
      ∀ second, Script.ofSource q = .ok second → ∀ f g h,
        Matches (Operation.AlikeJoined f g h) (Operation.ofScripts f g p q)
          (Operation.ofScript h (p ++ "\n;\n" ++ q)) := by
  obtain ⟨own, same, accepted, rejected⟩ := Script.ofSource_joined (q := q) read
  have front : p.toList ++ Script.separator = (p ++ "\n;\n").toList := by
    simp [Script.separator]
  refine ⟨?_, ?_, ?_⟩
  · intro second done
    obtain ⟨more, same', together⟩ := accepted second done
    exact ⟨own, more, together, same, same'⟩
  · intro e failed
    have together := rejected e failed
    rw [front] at together
    exact together
  · intro second done f g h
    obtain ⟨more, same', together⟩ := accepted second done
    rw [Script.joined] at together
    rw [Operation.ofScripts, Operation.ofScript, Operation.ofScript, Operation.ofScript, read, done,
      together]
    dsimp only
    rw [List.mapM_append]
    apply (Operation.mapM_same same).bind
    intro operations others held
    apply (Operation.mapM_same same').bind
    intro operations' others' held'
    exact .ok ⟨others, others', rfl, held, held'⟩

/-- A name in front of a line comment, and brackets or a dot that would have gone on with it. -/
theorem Script.name_joins_brackets :
    (∃ own more, Script.ofSource ("db // (" ++ "\n;\n" ++ "[0]") = .ok (own ++ more) ∧
      own.map (·.text) = ["db"] ∧ more.map (·.text) = ["[0]"]) ∧
    Script.ofSource ("db // (" ++ "\n;\n" ++ ".a") =
      .error ⟨3, 1, .unexpectedToken .dot "." .value⟩ := by
  have names : (Script.ofSource "db // (").map (List.map (·.text)) = .ok ["db"] := by cbv
  have brackets : (Script.ofSource "[0]").map (List.map (·.text)) = .ok ["[0]"] := by cbv
  have dot : Script.ofSource ".a" = .error ⟨1, 1, .unexpectedToken .dot "." .value⟩ := by cbv
  obtain ⟨first, read, texts⟩ := (Outcome.map_eq_ok _ _ _).mp names
  obtain ⟨second, done, others⟩ := (Outcome.map_eq_ok _ _ _).mp brackets
  obtain ⟨accepted, -, -⟩ := Script.joins (q := "[0]") read
  obtain ⟨-, rejected, -⟩ := Script.joins (q := ".a") read
  obtain ⟨own, more, together, same, same'⟩ := accepted second done
  have texts_eq {statements others : List Statement}
      (same : List.Forall₂ Statement.Same statements others) :
      others.map (·.text) = statements.map (·.text) := by
    induction same with
    | nil => rfl
    | cons held _ ih => rw [List.map_cons, List.map_cons, held.text, ih]
  exact ⟨⟨own, more, together, (texts_eq same).trans texts, (texts_eq same').trans others⟩,
    rejected _ dot⟩

end MongoShell
