import MongoShell.Operation.OfStatement
import MongoShell.Proofs.Method.Alike
import MongoShell.Proofs.Statement.Places

/-! Statements that are the same, places apart, ask for the same operation, made-up values apart, or
are refused for the same reason. -/

namespace MongoShell

open Outcome (Matches)

variable {f g : Fresh} {op other : Operation}

namespace MethodCall

variable {call call' : MethodCall} (same : call.eraseSpans = call'.eraseSpans)

include same

theorem name_eq : call.name = call'.name := (MethodCall.mk.inj same).1

theorem label_eq : call.label = call'.label := by
  rw [label, name_eq same, label]

theorem arguments_eq :
    call.arguments.map Expr.eraseSpans = call'.arguments.map Expr.eraseSpans := by
  rw [← Expr.eraseAll_eq_map, ← Expr.eraseAll_eq_map]
  exact (MethodCall.mk.inj same).2.1

theorem check_eq (registry : Registry) (context : CallContext) :
    registry.check context call = registry.check context call' := by
  rw [Registry.check, name_eq same, label_eq same, Registry.check]

theorem report_alike {α β : Type} {related : α → β → Prop} {outcome : Except CallFault α}
    {outcome' : Except CallFault β} (alike : Matches related outcome outcome') :
    Matches related (call.report outcome) (call'.report outcome') := by
  rw [report, label_eq same, report]
  exact alike.mapError _

theorem apply_alike (method : Option Method) (ops : Operation.Alike f g op other) :
    Matches (Operation.Alike f g) (call.apply f method op) (call'.apply g method other) := by
  cases method with
  | none =>
    rw [apply, label_eq same]
    exact .error _
  | some method => exact report_alike same (method.call_alike (arguments_eq same) ops)

theorem modify_alike (ops : Operation.Alike f g op other) :
    Matches (Operation.Alike f g) (call.modify f op) (call'.modify g other) := by
  have arguments := arguments_eq same
  have count : call.arguments.length = call'.arguments.length := by
    rw [← List.length_map Expr.eraseSpans, arguments, List.length_map]
  have head : call.arguments.head?.map Expr.eraseSpans =
      call'.arguments.head?.map Expr.eraseSpans := by
    rw [← List.head?_map, arguments, List.head?_map]
  unfold modify
  rw [count, name_eq same, label_eq same]
  refine (report_alike same (Matches.refl Eq.refl _)).bind fun _ _ _ => ?_
  cases Modifier.ofName? call'.name with
  | none => exact .error _
  | some modifier => exact report_alike same (modifier.set_alike head ops)

end MethodCall

namespace CollectionChain

variable {chain chain' : CollectionChain}

/-- Chains on addresses that name one collection, whose calls are the same places apart. -/
structure SameCalls (chain chain' : CollectionChain) : Prop where
  collection : chain.collection.name = chain'.collection.name
  first : chain.first.eraseSpans = chain'.first.eraseSpans
  chained : chain.chained.map MethodCall.eraseSpans = chain'.chained.map MethodCall.eraseSpans

theorem SameCalls.of_eraseSpans (same : chain.eraseSpans = chain'.eraseSpans) :
    SameCalls chain chain' := by
  obtain ⟨collection, first, chained⟩ := CollectionChain.mk.inj same
  exact ⟨by rw [collection], first, chained⟩

theorem firstOperation_alike (registry : Registry) (same : SameCalls chain chain') :
    Matches (Operation.Alike f g) (chain.firstOperation registry f)
      (chain'.firstOperation registry g) := by
  have bare := Operation.Alike.bare (f := f) (g := g) .unknown chain'.collection.name
  unfold firstOperation
  simp only [MethodCall.name_eq same.first, MethodCall.check_eq same.first, same.collection]
  refine (Matches.refl Eq.refl _).bind fun _ _ _ => ?_
  refine (MethodCall.apply_alike same.first _ bare).bind fun op other ops => ?_
  rw [ops.kind]
  split
  · exact MethodCall.report_alike same.first (.error _)
  · exact .ok ops

theorem nextOperation_alike (registry : Registry) {call call' : MethodCall}
    (same : call.eraseSpans = call'.eraseSpans) (ops : Operation.Alike f g op other) :
    Matches (Operation.Alike f g) (nextOperation registry f op call)
      (nextOperation registry g other call') := by
  unfold nextOperation
  rw [ops.kind, MethodCall.check_eq same, MethodCall.check_eq same]
  split
  · exact (Matches.refl Eq.refl _).bind fun _ _ _ => MethodCall.modify_alike same ops
  · exact (Matches.refl Eq.refl _).bind fun _ _ _ => MethodCall.report_alike same (.error _)

/-- The address of a collection does not matter beyond the name that it gives. -/
theorem operation_alike (registry : Registry) (same : SameCalls chain chain') :
    Matches (Operation.Alike f g) (chain.operation registry f) (chain'.operation registry g) := by
  refine (firstOperation_alike registry same).bind fun op other ops => ?_
  have pairs : List.Forall₂ (fun call call' => call.eraseSpans = call'.eraseSpans) chain.chained
      chain'.chained := by
    have mapped : List.Forall₂ Eq (chain.chained.map MethodCall.eraseSpans)
        (chain'.chained.map MethodCall.eraseSpans) := by
      rw [List.forall₂_eq_eq_eq]
      exact same.chained
    exact List.forall₂_map_right_iff.mp (List.forall₂_map_left_iff.mp mapped)
  exact Matches.foldlM pairs ops fun call call' op other held ops =>
    nextOperation_alike registry held ops

end CollectionChain

theorem DatabaseStatement.operation_alike (registry : Registry)
    {statement other : DatabaseStatement} (same : statement.eraseSpans = other.eraseSpans) :
    Matches (Operation.Alike f g) (statement.operation registry f)
      (other.operation registry g) := by
  have bare := Operation.Alike.bare (f := f) (g := g) .unknown ""
  cases statement <;> cases other <;> simp [DatabaseStatement.eraseSpans] at same
  case command.command handled call _ call' =>
    obtain ⟨rfl, same⟩ := same
    simp only [DatabaseStatement.operation, MethodCall.check_eq same]
    exact (Matches.refl Eq.refl _).bind fun _ _ _ => MethodCall.apply_alike same _ bare
  case method.method =>
    simp only [DatabaseStatement.operation, MethodCall.check_eq same, MethodCall.label_eq same]
    exact (Matches.refl Eq.refl _).bind fun _ _ _ => .error _
  case collection.collection => exact CollectionChain.operation_alike registry (.of_eraseSpans same)

/-- Statements of one kind, places apart, ask for one operation; those that ask for none are refused
under their texts. -/
theorem Statement.operation_alike (registry : Registry) {statement other : Statement}
    (kind : statement.kind.eraseSpans = other.kind.eraseSpans)
    (text : statement.text = other.text) :
    Matches (Operation.Alike f g) (statement.operation registry f)
      (other.operation registry g) := by
  obtain ⟨own, words, place⟩ := statement
  obtain ⟨own', words', place'⟩ := other
  simp only at kind text
  subst text
  cases own <;> cases own' <;> simp [StatementKind.eraseSpans] at kind
  case shell.shell command _ =>
    subst kind
    cases command with
    | showDatabases => exact .ok (.bare .showDatabases "")
    | showCollections => exact .ok (.bare .showCollections "")
    | other text => exact .error _
  case database.database => exact DatabaseStatement.operation_alike registry kind
  case expression.expression => exact .error _

end MongoShell
