import MongoShell.Proofs.Script.Parts

/-! What ends a statement. Wherever a script is, a semicolon does what the end of the input does: it
ends the statement that is being read, or it is an error. -/

namespace MongoShell

/-- The tokens that end a statement wherever they are: a semicolon and the end of the input. -/
def Token.Ends (t : Token) : Prop := t.kind = .semicolon ∨ t.kind = .endOfInput

section Ends

variable {t u : Token} (ends : t.Ends)

include ends

theorem Mode.startPrimary_ends {frames : List Frame} {place : Mode × List Frame} :
    Mode.startPrimary frames t ≠ .ok place := by
  rcases ends with kind | kind <;> simp [startPrimary, kind]

theorem Mode.start_ends {frames : List Frame} {place : Mode × List Frame} :
    Mode.start frames t ≠ .ok place := by
  have noSign : ¬(t.kind = .plus ∨ t.kind = .minus) := by
    rcases ends with kind | kind <;> simp [kind]
  rw [start, if_neg noSign]
  exact startPrimary_ends ends

theorem Mode.startItem_ends {frames : List Frame} {place : Mode × List Frame} :
    Mode.startItem frames t ≠ .ok place := by
  have opens : t.kind ∉ [.rightBracket, .rightParen] := by
    rcases ends with kind | kind <;> simp [kind]
  rw [startItem_eq_start opens]
  exact start_ends ends

theorem Mode.deliver_ends {frames : List Frame} {e : Expr} {progress : Progress}
    (done : Mode.deliver frames e t = .ok progress) : frames = [] ∧ progress = .finished e := by
  cases frames with
  | nil =>
    cases done
    exact ⟨rfl, rfl⟩
  | cons frame frames =>
    rcases ends with kind | kind <;> cases frame <;> simp [deliver, kind] at done

theorem Mode.afterOperand_ends (frames : List Frame) (e : Expr) :
    Mode.afterOperand frames e t = Mode.deliver frames e t := by
  rcases ends with kind | kind <;> simp only [afterOperand, kind]

/-- The reader can only go on with such a token behind a whole value, which it ends. -/
theorem Mode.step_ends {mode : Mode} {frames : List Frame} {progress : Progress}
    (others : u.Ends) (done : mode.step frames t = .ok progress) :
    ∃ e, progress = .finished e ∧ mode.step frames u = .ok (.finished e) := by
  cases mode with
  | value =>
    obtain ⟨place, started, -⟩ := (Outcome.map_eq_ok _ _ _).mp done
    exact absurd started (start_ends ends)
  | item =>
    obtain ⟨place, started, -⟩ := (Outcome.map_eq_ok _ _ _).mp done
    exact absurd started (startItem_ends ends)
  | signed sign => rcases ends with kind | kind <;> simp [step, kind] at done
  | member target => rcases ends with kind | kind <;> simp [step, kind] at done
  | keyword span => rcases ends with kind | kind <;> simp [step, kind] at done
  | key opening earlier =>
    rcases ends with kind | kind <;> simp [step, startProperty, kind, Except.map] at done
  | colon opening earlier key keySpan => rcases ends with kind | kind <;> simp [step, kind] at done
  | operand e =>
    simp only [step, afterOperand_ends ends] at done
    obtain ⟨rfl, rfl⟩ := deliver_ends ends done
    exact ⟨e, rfl, by simp only [step, afterOperand_ends others, deliver]⟩
  | complete e =>
    obtain ⟨rfl, rfl⟩ := deliver_ends ends done
    exact ⟨e, rfl, rfl⟩
  | constructor word name =>
    have noParen {v : Token} (ends : v.Ends) : v.kind ≠ .leftParen := by
      rcases ends with kind | kind <;> simp [kind]
    simp only [step, if_neg (noParen ends), afterOperand_ends ends] at done
    obtain ⟨rfl, rfl⟩ := deliver_ends ends done
    exact ⟨_, rfl, by simp only [step, if_neg (noParen others), afterOperand_ends others, deliver]⟩

namespace Script

namespace State

theorem start_ends (state : State) : state.start t = .ok { state with stage := .between } :=
  if_pos ends

theorem separate_ends (state : State) (last : Token) :
    state.separate last t = .ok { state with stage := .between } :=
  if_pos ends

theorem continueExpression_ends {source : List Char} {state next : State} {first last : Token}
    {mode : Mode} {frames : List Frame} (others : u.Ends)
    (done : state.continueExpression source first last mode frames t = .ok next) :
    next.stage = .between ∧
      state.continueExpression source first last mode frames u = .ok next := by
  unfold continueExpression at done ⊢
  split at done
  · cases done
  · rename_i stepped
    obtain ⟨e, same, -⟩ := Mode.step_ends ends ends stepped
    cases same
  · rename_i e stepped
    obtain ⟨d, same, other⟩ := Mode.step_ends ends others stepped
    cases same
    rw [separate_ends ends] at done
    cases done
    exact ⟨rfl, by simp only [other, separate_ends others]⟩

/-- One of these tokens does what the other does: it ends the statement in front of it. -/
theorem step_ends {source : List Char} {state next : State} (others : u.Ends)
    (done : state.step source t = .ok next) :
    next.stage = .between ∧ state.step source u = .ok next := by
  obtain ⟨statements, stage⟩ := state
  cases stage with
  | between =>
    simp only [step, start_ends ends] at done
    cases done
    exact ⟨rfl, start_ends others _⟩
  | behind last =>
    simp only [step, separate_ends ends] at done
    cases done
    exact ⟨rfl, separate_ends others _ _⟩
  | inside first last mode frames => exact continueExpression_ends ends others done
  | shown word =>
    have plain {v : Token} (ends : v.Ends) : v.kind ≠ .identifier := by
      rcases ends with kind | kind <;> simp [kind]
    rw [step_shown source (plain ends)] at done
    rw [step_shown source (plain others)]
    exact continueExpression_ends ends others done

end State

end Script

end Ends

end MongoShell
