import MongoShell.Proofs.Expr.Derivation
import MongoShell.Proofs.Script

/-! The parts of a script. Every statement of a script has tokens of its own, one behind the other:
either the two words of a command, or an expression as a whole. Conversely such tokens, in front of
the end of the input, are a script of this one statement. -/

namespace MongoShell

open Grammar

/-- The statement that a kind makes of the tokens from the one through the other. -/
def Statement.between (source : List Char) (first last : Token) (kind : StatementKind) :
    Statement :=
  ⟨kind, String.ofList ((first.span.through last.span).slice source), first.span.through last.span⟩

/-- The two words of a shell command. -/
def IsCommand (word name : Token) : Prop :=
  word.kind = .identifier ∧ word.text = "show" ∧ name.kind = .identifier

namespace Script

theorem ofSource_eq_ok (source : String) (statements : List Statement) :
    ofSource source = .ok statements ↔
      ∃ tokens, scanFrom .start source.toList = .ok tokens ∧
        ofTokens source.toList tokens = .ok statements := by
  rw [ofSource, tokens]
  cases scanFrom .start source.toList with
  | error e => simp
  | ok tokens => simp

theorem ofSource_eq_error (source : String) (e : SyntaxError) :
    ofSource source = .error e ↔ scanFrom .start source.toList = .error e ∨
      ∃ tokens, scanFrom .start source.toList = .ok tokens ∧
        ofTokens source.toList tokens = .error e := by
  rw [ofSource, tokens]
  cases scanFrom .start source.toList with
  | error e => simp
  | ok tokens => simp

variable (source : List Char)

/-! One statement -/

/-- Behind the word `show`, a token that is no word goes on with an expression. -/
theorem step_shown {t : Token} (plain : t.kind ≠ .identifier) (statements : List Statement)
    (word : Token) :
    State.step source ⟨statements, .shown word⟩ t = State.step source
      ⟨statements, .inside word word (.operand (.identifier word.span word.text)) []⟩ t := by
  simp only [State.step, if_neg plain]
  rfl

/-- A word behind an identifier is no part of an expression. -/
theorem not_word_of_step {e : Expr} {t : Token} {next : Mode} {others : List Frame}
    (one : (Mode.operand e).step [] t = .ok (.reading next others)) : t.kind ≠ .identifier := by
  intro kind
  simp [Mode.step, Mode.afterOperand, kind, Mode.deliver] at one

/-- The first token of an expression statement, and what is behind it. -/
theorem foldlM_start {t final : Token} {rest : List Token} {next mode : Mode} {others : List Frame}
    (one : Mode.value.step [] t = .ok (.reading next others))
    (more : Mode.Reaches next others rest mode []) (kind : final.kind = .endOfInput) :
    (t :: (rest ++ [final])).foldlM (State.step source) State.initial =
      (rest ++ [final]).foldlM (State.step source) ⟨[], .inside t t next others⟩ := by
  have starts := Mode.kind_of_value_step one
  obtain ⟨⟨mode, frames⟩, begun, same⟩ := (Outcome.map_eq_ok _ _ _).mp one
  cases same
  by_cases command : t.kind = .identifier ∧ t.text = "show"
  · have first : State.step source State.initial t = .ok ⟨[], .shown t⟩ := by
      simp [State.step, State.initial, State.start, command]
    have word : next = .operand (.identifier t.span t.text) ∧ others = [] := by
      simpa [Mode.start, Mode.startPrimary, command, Mode.wordValue, eq_comm] using begun
    obtain ⟨rfl, rfl⟩ := word
    rw [Outcome.foldlM_cons_ok first]
    cases more with
    | here =>
      rw [List.nil_append, List.foldlM_cons, List.foldlM_cons, step_shown source (by simp [kind])]
    | step one' more =>
      rw [List.cons_append, List.foldlM_cons, List.foldlM_cons,
        step_shown source (not_word_of_step one')]
  · have first : State.step source State.initial t = .ok ⟨[], .inside t t next others⟩ := by
      simp only [List.mem_cons, List.not_mem_nil, or_false, not_or] at starts
      change State.initial.start t = _
      rw [State.start, if_neg (by simp [starts]), if_neg command, begun]
      rfl
    rw [Outcome.foldlM_cons_ok first]

/-- The tokens of an expression as a whole, in front of the end of the input, are one statement. -/
theorem ofTokens_whole {tokens : List Token} {final : Token} {tree : Expr}
    (whole : Whole tokens final tree) (kind : final.kind = .endOfInput) :
    ∃ e first last, tokens.head? = some first ∧ tokens.getLast? = some last ∧
      e.eraseSpans = tree ∧
      ofTokens source (tokens ++ [final]) = .ok [.between source first last (.ofExpr e)] := by
  obtain ⟨mode, e, run, finished, same⟩ := whole.reaches
  cases run with
  | here => exact absurd rfl whole.expression.ne_nil
  | @step _ next _ _ others _ t rest one more =>
    refine ⟨e, t, rest.getLast?.getD t, rfl, by rw [List.getLast?_cons], same, ?_⟩
    rw [ofTokens, List.cons_append, foldlM_start source one more kind, List.foldlM_append,
      foldlM_inside source more]
    change ([final].foldlM (State.step source) ⟨[], .inside t _ mode []⟩).map _ = _
    simp [State.step, State.continueExpression, finished, State.addStatement, State.separate, kind,
      Statement.between, Except.map]

/-- The two words of a command are one statement. -/
theorem ofTokens_command {word name final : Token} (command : IsCommand word name)
    (kind : final.kind = .endOfInput) :
    ofTokens source [word, name, final] = .ok [.between source word name (.shell
      (.ofShow name.text (String.ofList ((word.span.through name.span).slice source))))] := by
  obtain ⟨isWord, isShow, isName⟩ := command
  have first : State.step source State.initial word = .ok ⟨[], .shown word⟩ := by
    simp [State.step, State.initial, State.start, isWord, isShow]
  have second : State.step source ⟨[], .shown word⟩ name =
      .ok ⟨[.between source word name (.shell
        (.ofShow name.text (String.ofList ((word.span.through name.span).slice source))))],
        .behind name⟩ := by
    simp [State.step, isName, State.addStatement, Statement.between]
  have third (statements : List Statement) :
      State.step source ⟨statements, .behind name⟩ final = .ok ⟨statements, .between⟩ := by
    simp [State.step, State.separate, kind]
  rw [ofTokens, Outcome.foldlM_cons_ok first, Outcome.foldlM_cons_ok second,
    Outcome.foldlM_cons_ok (third _)]
  rfl

/-! The statements of a script -/

/-- A statement stands among the tokens of a script: two of them are its command, or some of them
are its expression as a whole. -/
inductive Stands (tokens : List Token) : Statement → Prop
  | command (before behind : List Token) {word name : Token}
      (parted : tokens = before ++ ([word, name] ++ behind)) (command : IsCommand word name) :
      Stands tokens (.between source word name (.shell
        (.ofShow name.text (String.ofList ((word.span.through name.span).slice source)))))
  | expression (before behind : List Token) {own : List Token} {next first last : Token} {e : Expr}
      (parted : tokens = before ++ (own ++ next :: behind)) (whole : Whole own next e.eraseSpans)
      (head : own.head? = some first) (ends : own.getLast? = some last) :
      Stands tokens (.between source first last (.ofExpr e))

/-- The tokens read so far are accounted for by the stage that they led to. -/
def Stage.Accounts (tokens : List Token) : Stage → Prop
  | between => True
  | behind _ => True
  | shown word =>
    ∃ before, tokens = before ++ [word] ∧ word.kind = .identifier ∧ word.text = "show"
  | inside first last mode frames =>
    ∃ before own, tokens = before ++ own ∧ own.head? = some first ∧ own.getLast? = some last ∧
      mode.Accounts frames own

structure State.Accounts (tokens : List Token) (state : State) : Prop where
  statements : ∀ s ∈ state.statements, Stands source tokens s
  stage : state.stage.Accounts tokens

variable {source}

theorem Stands.append {tokens : List Token} {s : Statement} (stands : Stands source tokens s)
    (more : List Token) : Stands source (tokens ++ more) s := by
  cases stands with
  | command before behind parted command =>
    exact .command before (behind ++ more) (by simp [parted]) command
  | expression before behind parted whole head ends =>
    exact .expression before (behind ++ more) (by simp [parted]) whole head ends

namespace State

/-- The first token of a statement. -/
theorem start_accounts {state next : State} {tokens : List Token} {t : Token}
    (stand : ∀ s ∈ state.statements, Stands source (tokens ++ [t]) s)
    (done : state.start t = .ok next) : next.Accounts source (tokens ++ [t]) := by
  unfold start at done
  split at done
  · cases done
    exact ⟨stand, trivial⟩
  split at done
  · rename_i command
    cases done
    exact ⟨stand, tokens, rfl, command⟩
  · obtain ⟨⟨mode, frames⟩, started, rfl⟩ := (Outcome.map_eq_ok _ _ _).mp done
    have nothing : Surrounds [] [] := rfl
    exact ⟨stand, tokens, [t], rfl, rfl, rfl, Mode.start_accounts nothing started⟩

theorem separate_accounts {state next : State} {tokens : List Token} {last t : Token}
    (stand : ∀ s ∈ state.statements, Stands source (tokens ++ [t]) s)
    (done : state.separate last t = .ok next) : next.Accounts source (tokens ++ [t]) := by
  unfold separate at done
  split at done
  · cases done
    exact ⟨stand, trivial⟩
  split at done
  · cases done
  · exact start_accounts stand done

/-- One token further in an expression: it is part of the expression, or ends it as a whole. -/
theorem continueExpression_accounts {state next : State} {before own : List Token}
    {first last t : Token} {mode : Mode} {frames : List Frame}
    (stand : ∀ s ∈ state.statements, Stands source (before ++ own ++ [t]) s)
    (head : own.head? = some first) (ends : own.getLast? = some last)
    (accounts : mode.Accounts frames own)
    (done : state.continueExpression source first last mode frames t = .ok next) :
    next.Accounts source (before ++ own ++ [t]) := by
  unfold continueExpression at done
  split at done
  · cases done
  · rename_i stepped
    cases done
    refine ⟨stand, before, own ++ [t], by simp, ?_, by simp, Mode.step_accounts accounts stepped⟩
    rw [List.head?_append, head]
    rfl
  · rename_i e stepped
    have whole : Whole own t e.eraseSpans := Mode.step_accounts accounts stepped
    refine separate_accounts (fun s member => ?_) done
    cases member with
    | head => exact .expression before [] (by simp) whole head ends
    | tail _ member => exact stand s member

theorem step_accounts {state next : State} {tokens : List Token} {t : Token}
    (accounts : state.Accounts source tokens) (done : state.step source t = .ok next) :
    next.Accounts source (tokens ++ [t]) := by
  obtain ⟨statements, stage⟩ := state
  obtain ⟨earlier, led⟩ := accounts
  have stand : ∀ s ∈ statements, Stands source (tokens ++ [t]) s :=
    fun s member => (earlier s member).append [t]
  cases stage with
  | between => exact start_accounts stand done
  | behind last => exact separate_accounts stand done
  | inside first last mode frames =>
    obtain ⟨before, own, rfl, head, ends, accounts⟩ := led
    exact continueExpression_accounts stand head ends accounts done
  | shown word =>
    obtain ⟨before, rfl, isWord, isShow⟩ := led
    simp only [step] at done
    split at done
    · rename_i isName
      cases done
      refine ⟨fun s member => ?_, trivial⟩
      cases member with
      | head => exact .command before [] (by simp) ⟨isWord, isShow, isName⟩
      | tail _ member => exact stand s member
    · have value : Word word.text (.identifier Expr.nowhere word.text) :=
        .name (by simp [isShow])
      have accounts : (Mode.operand (.identifier word.span word.text)).Accounts [] [word] :=
        ⟨[], [word], rfl, rfl, .word isWord value⟩
      exact continueExpression_accounts stand rfl rfl accounts done

theorem foldlM_accounts {state last : State} {tokens rest : List Token}
    (accounts : state.Accounts source tokens)
    (done : rest.foldlM (State.step source) state = .ok last) :
    last.Accounts source (tokens ++ rest) := by
  induction rest generalizing state tokens with
  | nil =>
    cases done
    rwa [List.append_nil]
  | cons t rest ih =>
    rw [List.foldlM_cons] at done
    obtain ⟨middle, one, more⟩ := (Outcome.bind_eq_ok _ _ _).mp done
    simpa using ih (step_accounts accounts one) more

end State

/-- Every statement of a script stands among its tokens. -/
theorem stands_of_ofTokens {tokens : List Token} {statements : List Statement}
    (done : ofTokens source tokens = .ok statements) {s : Statement} (member : s ∈ statements) :
    Stands source tokens s := by
  obtain ⟨last, run, rfl⟩ := (Outcome.map_eq_ok _ _ _).mp done
  have initial : State.initial.Accounts source [] := ⟨by simp [State.initial], trivial⟩
  exact (State.foldlM_accounts initial run).statements s (List.mem_reverse.mp member)

end Script

end MongoShell
