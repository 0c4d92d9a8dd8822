import MongoShell.Proofs.Expr.Abreast
import MongoShell.Proofs.Script.Parts

/-! Two scripts read abreast. If their tokens say the same, one by one, and tokens on different
lines of the one stand on different lines of the other, then the second script is read wherever the
first one is, as the same statements. If the tokens also share lines in both, then both scripts are
read or both fail for the same fault, each at its own token. -/

namespace MongoShell

namespace Script

/-- What makes two scripts go abreast: the pairs of their tokens, and what their statements have in
common where they go from one pair through another. A lenient second script may stand on more lines
than the first. -/
structure Paired (lenient : Prop) (source source' : List Char) (pair : Token → Token → Prop)
    (alike : Statement → Statement → Prop) : Prop where
  word : ∀ {t u}, pair t u → u.word = t.word
  breaks : ∀ {a a' b b'}, pair a a' → pair b b' → a.span.line ≠ b.span.line →
    a'.span.line ≠ b'.span.line
  joins : ¬lenient → ∀ {a a' b b'}, pair a a' → pair b b' → a.span.line = b.span.line →
    a'.span.line = b'.span.line
  command : ∀ {word word' name name'}, pair word word' → pair name name' →
    alike (.between source word name (.shell (.ofShow name.text
        (String.ofList ((word.span.through name.span).slice source)))))
      (.between source' word' name' (.shell (.ofShow name'.text
        (String.ofList ((word'.span.through name'.span).slice source')))))
  expression : ∀ {first first' last last' e e'}, pair first first' → pair last last' →
    e.eraseSpans = e'.eraseSpans →
    alike (.between source first last (.ofExpr e)) (.between source' first' last' (.ofExpr e'))

/-- The same point of two scripts. -/
inductive Stage.Alike (pair : Token → Token → Prop) : Stage → Stage → Prop
  | between : Alike pair .between .between
  | shown {word word' : Token} (words : pair word word') : Alike pair (.shown word) (.shown word')
  | inside {first first' last last' : Token} {mode mode' : Mode} {frames frames' : List Frame}
      (firsts : pair first first') (lasts : pair last last') (modes : mode.Alike mode')
      (surround : FramesAlike frames frames') :
      Alike pair (.inside first last mode frames) (.inside first' last' mode' frames')
  | behind {last last' : Token} (lasts : pair last last') :
    Alike pair (.behind last) (.behind last')

/-- The same point of two scripts, where the second one has read some statements before the first
one starts. -/
structure State.Alike (pair : Token → Token → Prop) (alike : Statement → Statement → Prop)
    (earlier : List Statement) (state state' : State) : Prop where
  statements : ∃ own, state'.statements = own ++ earlier ∧
    List.Forall₂ alike state.statements own
  stage : state.stage.Alike pair state'.stage

theorem State.initial_alike {pair : Token → Token → Prop} {alike : Statement → Statement → Prop}
    (earlier : List Statement) : State.initial.Alike pair alike earlier ⟨earlier, .between⟩ :=
  ⟨⟨[], rfl, .nil⟩, .between⟩

theorem State.Alike.addStatement {source source' : List Char} {pair : Token → Token → Prop}
    {alike : Statement → Statement → Prop} {earlier : List Statement} {state state' : State}
    {first first' last last' : Token} {kind kind' : StatementKind} {stage stage' : Stage}
    (states : state.Alike pair alike earlier state')
    (held : alike (.between source first last kind) (.between source' first' last' kind'))
    (stages : stage.Alike pair stage') :
    (state.addStatement source first last kind stage).Alike pair alike earlier
      (state'.addStatement source' first' last' kind' stage') := by
  obtain ⟨⟨own, whole, each⟩, -⟩ := states
  refine ⟨⟨_ :: own, ?_, .cons held each⟩, stages⟩
  rw [State.addStatement, whole]
  rfl

section Steps

variable {lenient : Prop} {source source' : List Char} {pair : Token → Token → Prop}
  {alike : Statement → Statement → Prop} {earlier : List Statement}
  (paired : Paired lenient source source' pair alike)

include paired

namespace State

variable {state state' : State} {t u : Token}

theorem start_abreast (states : state.Alike pair alike earlier state') (tokens : pair t u) :
    Abreast lenient t u (State.Alike pair alike earlier) (state.start t) (state'.start u) := by
  have word := paired.word tokens
  unfold start
  rw [Abreast.kind_eq word, Abreast.text_eq word]
  apply Abreast.ite
  · intro _
    exact .ok ⟨states.statements, .between⟩
  intro _
  apply Abreast.ite
  · intro _
    exact .ok ⟨states.statements, .shown tokens⟩
  intro _
  apply (Mode.start_abreast .nil word).map
  intro place place' held
  exact ⟨states.statements, .inside tokens tokens held.1 held.2⟩

/-- Behind a statement. This is the only point where lines matter. -/
theorem separate_abreast {last last' : Token} (states : state.Alike pair alike earlier state')
    (lasts : pair last last') (tokens : pair t u) :
    Abreast lenient t u (State.Alike pair alike earlier) (state.separate last t)
      (state'.separate last' u) := by
  have word := paired.word tokens
  unfold separate
  rw [Abreast.kind_eq word]
  apply Abreast.ite
  · intro _
    exact .ok ⟨states.statements, .between⟩
  intro _
  by_cases oneLine : t.span.line = last.span.line
  · rw [if_pos oneLine]
    by_cases allowed : lenient
    · exact .mended allowed _ _
    · rw [if_pos (paired.joins allowed tokens lasts oneLine)]
      exact Abreast.unexpected word _
  · rw [if_neg oneLine, if_neg (paired.breaks tokens lasts oneLine)]
    exact start_abreast paired states tokens

theorem continueExpression_abreast {first first' last last' : Token} {mode mode' : Mode}
    {frames frames' : List Frame} (states : state.Alike pair alike earlier state')
    (firsts : pair first first') (lasts : pair last last') (modes : mode.Alike mode')
    (surround : FramesAlike frames frames') (tokens : pair t u) :
    Abreast lenient t u (State.Alike pair alike earlier)
      (state.continueExpression source first last mode frames t)
      (state'.continueExpression source' first' last' mode' frames' u) := by
  have stepped : Abreast False t u Progress.Alike (mode.step frames t) (mode'.step frames' u) :=
    Mode.step_abreast modes surround (paired.word tokens)
  unfold continueExpression
  generalize mode.step frames t = one at stepped ⊢
  generalize mode'.step frames' u = other at stepped ⊢
  cases stepped with
  | mended allowed => cases allowed
  | error fault => exact .error fault
  | ok held =>
    cases held with
    | reading modes surround => exact .ok ⟨states.statements, .inside firsts tokens modes surround⟩
    | finished same =>
      have added := states.addStatement (paired.expression firsts lasts same) (.behind lasts)
      exact separate_abreast paired added lasts tokens

/-- One token further, the scripts are still abreast. -/
theorem step_abreast (states : state.Alike pair alike earlier state') (tokens : pair t u) :
    Abreast lenient t u (State.Alike pair alike earlier) (state.step source t)
      (state'.step source' u) := by
  obtain ⟨statements, stage⟩ := state
  obtain ⟨statements', stage'⟩ := state'
  have word := paired.word tokens
  obtain ⟨held, stages⟩ := states
  unfold step
  cases stages with
  | between => exact start_abreast paired ⟨held, .between⟩ tokens
  | behind lasts => exact separate_abreast paired ⟨held, .behind lasts⟩ lasts tokens
  | inside firsts lasts modes surround =>
    exact continueExpression_abreast paired ⟨held, .inside firsts lasts modes surround⟩ firsts lasts
      modes surround tokens
  | @shown first first' words =>
    simp only [Abreast.kind_eq word]
    apply Abreast.ite
    · intro _
      have states :
          State.Alike pair alike earlier ⟨statements, .shown first⟩
            ⟨statements', .shown first'⟩ :=
        ⟨held, .shown words⟩
      exact .ok (states.addStatement (paired.command words tokens) (.behind tokens))
    · intro _
      have same : (Expr.identifier first.span first.text).eraseSpans =
          (Expr.identifier first'.span first'.text).eraseSpans := by
        simp only [Expr.eraseSpans, Abreast.text_eq (paired.word words)]
      exact continueExpression_abreast paired ⟨held, .shown words⟩ words words (.operand same) .nil
        tokens

/-! Runs over many tokens -/

/-- What the first script comes to, the second one comes to. -/
theorem foldlM_alike {tokens others : List Token} {last : State}
    (states : state.Alike pair alike earlier state') (pairs : List.Forall₂ pair tokens others)
    (done : tokens.foldlM (step source) state = .ok last) :
    ∃ last', others.foldlM (step source') state' = .ok last' ∧
      last.Alike pair alike earlier last' := by
  induction pairs generalizing state state' with
  | nil =>
    cases done
    exact ⟨state', rfl, states⟩
  | @cons t u tokens others first _ ih =>
    have stepped := step_abreast paired states first
    rw [List.foldlM_cons] at done
    obtain ⟨next, one, more⟩ := (Outcome.bind_eq_ok _ _ _).mp done
    rw [one] at stepped
    generalize other : step source' state' u = outcome at stepped
    cases stepped with
    | ok held =>
      rw [Outcome.foldlM_cons_ok other]
      exact ih held more

/-- Where the first script fails, the second one fails for the same fault. -/
theorem foldlM_fails {tokens others : List Token} {e : SyntaxError} (strict : ¬lenient)
    (states : state.Alike pair alike earlier state') (pairs : List.Forall₂ pair tokens others)
    (failed : tokens.foldlM (step source) state = .error e) :
    ∃ t u fault, pair t u ∧ e = .under t.span fault ∧
      others.foldlM (step source') state' = .error (.under u.span fault) := by
  induction pairs generalizing state state' with
  | nil => cases failed
  | @cons t u tokens others first _ ih =>
    have stepped := step_abreast paired states first
    rw [List.foldlM_cons] at failed ⊢
    generalize step source state t = one at stepped failed
    generalize step source' state' u = other at stepped ⊢
    cases stepped with
    | mended allowed => exact absurd allowed strict
    | ok held => exact ih held failed
    | error fault =>
      cases failed
      exact ⟨t, u, fault, first, rfl, rfl⟩

end State

end Steps

end Script

end MongoShell
