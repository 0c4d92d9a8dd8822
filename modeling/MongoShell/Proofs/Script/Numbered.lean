import MongoShell.Proofs.Expr.Numbered
import MongoShell.Proofs.Outcome
import MongoShell.Proofs.Statement.Places
import MongoShell.Script

/-! The name of infinity as a number, in a script. The database calls of an expression are found by
the names in it, and no call goes out from `Infinity`; so a script in which the name at one place is
a number is read as the same statements, with the name a number in them. -/

namespace MongoShell

/-! Statements -/

def DatabaseStatement.numbered (place : Span) : DatabaseStatement → DatabaseStatement :=
  rewrite (Expr.numbered place) id

def StatementKind.numbered (place : Span) : StatementKind → StatementKind
  | shell command => shell command
  | database statement => database (statement.numbered place)
  | expression e => expression (e.numbered place)

def Statement.numbered (place : Span) (statement : Statement) : Statement :=
  { statement with kind := statement.kind.numbered place }

variable {place : Span}

/-- The accesses on a root are found alike, unless the root is the name of infinity. -/
theorem Expr.accesses?_numbered (e : Expr) (gathered : List Access) :
    (e.numbered place).accesses? (gathered.map (Access.rewrite (numbered place) id)) =
        (e.accesses? gathered).map (fun (root, accesses) =>
          (root, accesses.map (Access.rewrite (numbered place) id))) ∨
      (e.numbered place).accesses? (gathered.map (Access.rewrite (numbered place) id)) = none ∧
        ∃ accesses, e.accesses? gathered = some ("Infinity", accesses) := by
  fun_induction Expr.accesses? gathered e with
  | case1 gathered span target name ih => exact ih
  | case2 gathered span target position ih => exact ih
  | case3 gathered span callee arguments ih =>
    rw [numbered_call]
    exact ih
  | case4 gathered span name =>
    rw [numbered]
    split
    · rename_i named
      rw [named.2]
      exact .inr ⟨rfl, _, rfl⟩
    · exact .inl rfl
  | case5 e gathered noMember noIndex noCall noName =>
    refine .inl ?_
    cases e with
    | construct span target => cases target <;> rfl
    | member => exact absurd rfl (noMember _ _ _)
    | index => exact absurd rfl (noIndex _ _ _)
    | call => exact absurd rfl (noCall _ _ _)
    | identifier => exact absurd rfl (noName _ _)
    | _ => rfl

theorem DatabaseStatement.ofExpr?_numbered (e : Expr) :
    ofExpr? (e.numbered place) = (ofExpr? e).map (numbered place) := by
  have accesses := @Expr.accesses?_numbered place e []
  rw [List.map_nil] at accesses
  rcases accesses with same | ⟨none, accesses, named⟩
  · rw [ofExpr?, same, ofExpr?]
    cases e.accesses? [] with
    | none => rfl
    | some found =>
      obtain ⟨root, accesses⟩ := found
      by_cases handle : root = "db"
      · simp only [Option.map_some, handle, if_true, numbered]
        exact ofAccesses?_rewrite (Expr.numbered_string? place) accesses
      · simp only [Option.map_some, if_neg handle, Option.map_none]
  · rw [ofExpr?, none, ofExpr?, named]
    rfl

theorem StatementKind.ofExpr_numbered (e : Expr) :
    ofExpr (e.numbered place) = (ofExpr e).numbered place := by
  rw [ofExpr, DatabaseStatement.ofExpr?_numbered, ofExpr]
  cases DatabaseStatement.ofExpr? e <;> rfl

/-! Scripts -/

namespace Script

def Stage.numbered (place : Span) : Stage → Stage
  | between => between
  | shown word => shown word
  | inside first last mode frames =>
    inside first last (mode.numbered place) (frames.map (Frame.numbered place))
  | behind last => behind last

/-- A word that may turn out to be a name stands elsewhere. -/
def Stage.Clear (place : Span) : Stage → Prop
  | shown word => word.span ≠ place
  | _ => True

def State.numbered (place : Span) (state : State) : State :=
  ⟨state.statements.map (Statement.numbered place), state.stage.numbered place⟩

namespace State

variable {source : List Char} {state : State} {t : Token}

theorem start_numbered (elsewhere : t.span ≠ place) (state : State) :
    (state.numbered place).start t = (state.start t).map (numbered place) := by
  have first := Mode.start_numbered elsewhere []
  rw [List.map_nil] at first
  unfold start
  split
  · rfl
  split
  · rfl
  · conv_lhs => rw [first]
    cases Mode.start [] t <;> rfl

theorem separate_numbered (elsewhere : t.span ≠ place) (state : State) (last : Token) :
    (state.numbered place).separate last t = (state.separate last t).map (numbered place) := by
  unfold separate
  split
  · rfl
  split
  · rfl
  · exact start_numbered elsewhere state

theorem continueExpression_numbered (elsewhere : t.span ≠ place) (state : State)
    (first last : Token) (mode : Mode) (frames : List Frame) :
    (state.numbered place).continueExpression source first last (mode.numbered place)
        (frames.map (Frame.numbered place)) t =
      (state.continueExpression source first last mode frames t).map (numbered place) := by
  unfold continueExpression
  rw [Mode.step_numbered elsewhere]
  cases mode.step frames t with
  | error e => rfl
  | ok progress =>
    cases progress with
    | reading mode frames => rfl
    | finished e =>
      have added : (state.numbered place).addStatement source first last
          (.ofExpr (e.numbered place)) (.behind last) =
            (state.addStatement source first last (.ofExpr e) (.behind last)).numbered place := by
        rw [StatementKind.ofExpr_numbered]
        rfl
      have separated := separate_numbered elsewhere
        (state.addStatement source first last (.ofExpr e) (.behind last)) last
      rwa [← added] at separated

theorem step_numbered (elsewhere : t.span ≠ place) (clear : state.stage.Clear place) :
    (state.numbered place).step source t = (state.step source t).map (numbered place) := by
  obtain ⟨statements, stage⟩ := state
  cases stage with
  | between => exact start_numbered elsewhere ⟨statements, .between⟩
  | behind last => exact separate_numbered elsewhere ⟨statements, .behind last⟩ last
  | inside first last mode frames =>
    exact continueExpression_numbered elsewhere ⟨statements, .inside first last mode frames⟩ first
      last mode frames
  | shown word =>
    simp only [step, numbered, Stage.numbered]
    split
    · rfl
    · have name : (Mode.operand (.identifier word.span word.text)).numbered place =
          .operand (.identifier word.span word.text) := by
        rw [Mode.numbered, Expr.numbered_identifier place clear]
      have goesOn := @continueExpression_numbered place source t elsewhere
        ⟨statements, .shown word⟩ word word (.operand (.identifier word.span word.text)) []
      rwa [name] at goesOn

theorem start_clear {next : State} (elsewhere : t.span ≠ place)
    (done : state.start t = .ok next) : next.stage.Clear place := by
  unfold start at done
  split at done
  · cases done
    trivial
  split at done
  · cases done
    exact elsewhere
  · obtain ⟨place, -, rfl⟩ := (Outcome.map_eq_ok _ _ _).mp done
    trivial

theorem separate_clear {next : State} {last : Token} (elsewhere : t.span ≠ place)
    (done : state.separate last t = .ok next) : next.stage.Clear place := by
  unfold separate at done
  split at done
  · cases done
    trivial
  split at done
  · cases done
  · exact start_clear elsewhere done

theorem step_clear {next : State} (elsewhere : t.span ≠ place)
    (done : state.step source t = .ok next) : next.stage.Clear place := by
  have goesOn {first last : Token} {mode : Mode} {frames : List Frame}
      (done : state.continueExpression source first last mode frames t = .ok next) :
      next.stage.Clear place := by
    unfold continueExpression at done
    split at done
    · cases done
    · cases done
      trivial
    · exact separate_clear elsewhere done
  unfold step at done
  split at done
  · exact start_clear elsewhere done
  · split at done
    · cases done
      trivial
    · exact goesOn done
  · exact goesOn done
  · exact separate_clear elsewhere done

/-- Tokens of other places are read the same way, whether or not the name of infinity is a number.
-/
theorem foldlM_numbered {tokens : List Token} (elsewhere : ∀ t ∈ tokens, t.span ≠ place)
    (clear : state.stage.Clear place) :
    tokens.foldlM (step source) (state.numbered place) =
      (tokens.foldlM (step source) state).map (numbered place) := by
  induction tokens generalizing state with
  | nil => rfl
  | cons t tokens ih =>
    obtain ⟨here, behind⟩ := List.forall_mem_cons.mp elsewhere
    rw [List.foldlM_cons, List.foldlM_cons, step_numbered here clear]
    cases done : state.step source t with
    | error e => rfl
    | ok next => exact ih behind (step_clear here done)

end State

end Script

end MongoShell
