import MongoShell.Proofs.Expr.Reader
import MongoShell.Script

/-! A script whose tokens read as one value is one statement, an expression that writes the value.
-/

namespace MongoShell

namespace Script

/-- A run of the reader inside a statement is a run of the script, through the last token read. -/
theorem foldlM_inside (source : List Char) {mode last : Mode} {frames final : List Frame}
    {tokens : List Token} (run : Mode.Reaches mode frames tokens last final)
    (statements : List Statement) (first latest : Token) :
    tokens.foldlM (State.step source) ⟨statements, .inside first latest mode frames⟩ =
      .ok ⟨statements, .inside first (tokens.getLast?.getD latest) last final⟩ := by
  induction run generalizing latest with
  | here => rfl
  | @step _ _ _ _ _ _ t tokens one _ ih =>
    rw [List.foldlM_cons, List.getLast?_cons, Option.getD_some]
    simp only [State.step, State.continueExpression, one]
    exact ih t

theorem start_of_opens {t : Token} (opens : Opens t) {next : Mode} {others : List Frame}
    (one : Mode.value.step [] t = .ok (.reading next others)) :
    State.initial.start t = .ok ⟨[], .inside t t next others⟩ := by
  obtain ⟨-, noSemicolon, noEnd, noShow⟩ := opens
  have separate : ¬(t.kind = .semicolon ∨ t.kind = .endOfInput) := by simp [noSemicolon, noEnd]
  obtain ⟨started, begun, same⟩ := (Outcome.map_eq_ok _ _ _).mp one
  cases same
  rw [State.start, if_neg separate, if_neg noShow, begun]
  rfl

/-- The end of the input ends the statement, which is the expression read. -/
theorem step_end (source : List Char) (first last : Token) {final : Token} {mode : Mode} {e : Expr}
    (holds : mode.Holds e) (rootless : e.accesses? [] = none) (kind : final.kind = .endOfInput) :
    ∃ statement : Statement, statement.kind = .expression e ∧
      State.step source ⟨[], .inside first last mode []⟩ final = .ok ⟨[statement], .between⟩ := by
  have finished : mode.step [] final = .ok (.finished e) := by
    rw [holds.step [] (by simp [kind]) (by simp [kind]) (by simp [kind])]
    rfl
  have plain : StatementKind.ofExpr e = .expression e := by
    simp [StatementKind.ofExpr, DatabaseStatement.ofExpr?, rootless]
  refine ⟨⟨.expression e, String.ofList ((first.span.through last.span).slice source),
    first.span.through last.span⟩, rfl, ?_⟩
  simp [State.step, State.continueExpression, finished, State.addStatement, State.separate, kind,
    plain]

/-- Tokens that read as a value make one statement. -/
theorem ofTokens_value (source : List Char) {tokens : List Token} {value : Value}
    (reads : Reads tokens value) {final : Token} (kind : final.kind = .endOfInput) :
    ∃ statement e, ofTokens source (tokens ++ [final]) = .ok [statement] ∧
      statement.kind = .expression e ∧ e.Spells value := by
  obtain ⟨t, rest, rfl, opens⟩ := reads.opens
  obtain ⟨mode, e, run, holds, spells⟩ := reads.ends []
  cases run with
  | step one more =>
    have inside := foldlM_inside source more [] t t
    obtain ⟨statement, expression, ended⟩ := step_end source t _ holds spells.rootless kind
    refine ⟨statement, e, ?_, expression, spells⟩
    have begun : State.step source State.initial t = _ := start_of_opens opens one
    have whole : (t :: rest ++ [final]).foldlM (State.step source) State.initial =
        .ok ⟨[statement], .between⟩ := by
      rw [List.cons_append, List.foldlM_cons, begun]
      change (rest ++ [final]).foldlM (State.step source) ⟨[], .inside t t _ _⟩ = _
      rw [List.foldlM_append, inside]
      change [final].foldlM (State.step source) ⟨[], .inside t _ mode []⟩ = _
      rw [List.foldlM_cons, ended]
      rfl
    rw [ofTokens, whole]
    rfl

end Script

end MongoShell
