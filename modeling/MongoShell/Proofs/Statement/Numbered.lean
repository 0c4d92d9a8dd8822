import MongoShell.Proofs.Method.Serves
import MongoShell.Proofs.Script.Layout
import MongoShell.Proofs.Script.Nesting
import MongoShell.Proofs.Script.Numbered

/-! What statements come to with the name of infinity and with the number. Apart from the calls that
refuse the name, a statement asks for the same operation and writes the same value with either. -/

namespace MongoShell

/-- The value that a statement writes, if it is an expression that writes one. -/
def StatementKind.value? (fresh : Fresh) : StatementKind → Option Value
  | expression e => (Value.ofExpr fresh e).toOption
  | shell _ | database _ => none

/-- Two statements come to the same operation and to the same value, made-up values apart, or both
come to none. -/
structure Statement.ComesAlike (statement other : Statement) : Prop where
  operation (registry : Registry) (f g : Fresh) : Option.Rel (Operation.Alike f g)
    (statement.operation registry f).toOption (other.operation registry g).toOption
  value (f g : Fresh) :
    Option.Rel (Value.Alike f g) (statement.kind.value? f) (other.kind.value? g)

/-- A statement has a call that takes the number for infinity at a place, and refuses the name. -/
def Statement.RefusesName (place : Span) (statement : Statement) : Prop :=
  ∃ node ∈ statement.kind.nodes, ∃ call, (Node.expr call).Within node ∧ call.RefusesName place

/-! Statements that are the same, places apart -/

namespace Statement

theorem operation_text (registry : Registry) (fresh : Fresh) (kind : StatementKind)
    (text text' : String) (span span' : Span) :
    (operation registry fresh ⟨kind, text, span⟩).toOption =
      (operation registry fresh ⟨kind, text', span'⟩).toOption := by
  cases kind <;> rfl

theorem AsksAlike.comesAlike {statement other : Statement} (asks : AsksAlike statement other) :
    ComesAlike statement other := by
  obtain ⟨kind, text, span⟩ := statement
  obtain ⟨kind', text', span'⟩ := other
  cases asks with
  | same alike =>
    constructor
    · intro registry f g
      have matched : Outcome.Matches (Operation.Alike f g)
          (Statement.operation registry f ⟨kind, text, span⟩)
          (Statement.operation registry g ⟨kind', text, span'⟩) :=
        operation_alike registry alike rfl
      rw [operation_text registry g kind' text' text span' span']
      exact matched.toOption
    · intro f g
      cases kind <;> cases kind' <;> simp only [StatementKind.eraseSpans, reduceCtorEq] at alike
      case expression.expression e d =>
        exact (Value.ofExpr_alike (StatementKind.expression.inj alike)).toOption
      all_goals exact .none
  | unknown known known' =>
    obtain rfl := known
    obtain rfl := known'
    exact ⟨fun _ _ _ => .none, fun _ _ => .none⟩

end Statement

/-! Statements with the number in place of the name -/

variable {place : Span} {fresh : Fresh}

theorem MethodCall.serves_numbered {call : MethodCall}
    (spares : (Node.call call).Spares place) :
    (call.rewrite (Expr.numbered place) id).Serves fresh call where
  name := rfl
  arguments := List.forall₂_map_left_iff.mpr <| List.forall₂_same.mpr fun e member =>
    ⟨Value.ofExpr_numbered (spares.child (List.mem_map_of_mem member)),
      Expr.numbered_string? place e⟩

theorem DatabaseStatement.operation_numbered (registry : Registry)
    {statement : DatabaseStatement}
    (spares : ∀ call ∈ statement.calls, (Node.call call).Spares place) :
    ((statement.numbered place).operation registry fresh).toOption =
      (statement.operation registry fresh).toOption := by
  have serves {call : MethodCall} (member : call ∈ statement.calls) :
      (call.rewrite (Expr.numbered place) id).Serves fresh call :=
    MethodCall.serves_numbered (spares call member)
  cases statement with
  | command handled call =>
    have same := serves (List.mem_singleton_self call)
    simp only [numbered, rewrite, operation, Outcome.toOption_bind, MethodCall.check_serves same,
      MethodCall.apply_serves same]
  | method call =>
    have same := serves (List.mem_singleton_self call)
    simp only [numbered, rewrite, operation, Outcome.toOption_bind, MethodCall.check_serves same]
    rfl
  | collection chain =>
    refine CollectionChain.operation_serves registry rfl (serves (.head _)) ?_
    exact List.forall₂_map_left_iff.mpr <| List.forall₂_same.mpr fun call member =>
      serves (.tail _ member)

/-- A statement comes to what it comes to with the number in place of the name, unless a call
refuses the name. -/
theorem Statement.ComesAlike.of_numbered {statement other : Statement}
    (comes : ComesAlike (statement.numbered place) other)
    (spares : ¬statement.RefusesName place) : ComesAlike statement other := by
  obtain ⟨kind, text, span⟩ := statement
  have each : ∀ node ∈ kind.nodes, node.Spares place := fun node member call within refuses =>
    spares ⟨node, member, call, within, refuses⟩
  obtain ⟨operation, value⟩ := comes
  cases kind with
  | shell command => exact ⟨operation, value⟩
  | database statement =>
    refine ⟨fun registry f g => ?_, value⟩
    have same := @DatabaseStatement.operation_numbered place f registry statement
      fun call member => each _ (List.mem_map_of_mem member)
    have done := operation registry f g
    change Option.Rel _ ((statement.numbered place).operation registry f).toOption _ at done
    rwa [same] at done
  | expression e =>
    refine ⟨operation, fun f g => ?_⟩
    have same := @Value.ofExpr_numbered place f e (each _ (List.mem_singleton_self _))
    have written := value f g
    change Option.Rel _ (Value.ofExpr f (e.numbered place)).toOption _ at written
    rwa [same] at written

end MongoShell
