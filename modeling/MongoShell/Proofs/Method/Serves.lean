import Mathlib.Data.List.Forall2
import MongoShell.Operation.OfStatement
import MongoShell.Proofs.Value.Numbered

/-! Arguments that serve the same. A call looks at an argument as the value that it writes and,
where a literal is needed, as a string; so expressions that come to one value and are the same
string, or none, may stand in for each other, up to the reason for which a call is refused. -/

namespace MongoShell

open Outcome (toOption_bind toOption_mapError)

/-- Two expressions that serve the same as arguments. -/
structure Expr.Serves (fresh : Fresh) (e d : Expr) : Prop where
  value : (Value.ofExpr fresh e).toOption = (Value.ofExpr fresh d).toOption
  text : e.string? = d.string?

/-- Two calls of one method whose arguments serve the same. -/
structure MethodCall.Serves (fresh : Fresh) (call call' : MethodCall) : Prop where
  name : call.name = call'.name
  arguments : List.Forall₂ (Expr.Serves fresh) call.arguments call'.arguments

variable {fresh : Fresh}

/-! One argument -/

namespace Argument

theorem value?_toOption (e : Expr) :
    (value? fresh (some e)).toOption = (Value.ofExpr fresh e).toOption.map fun value =>
      if value.isNull then none else some value := by
  rw [value?]
  cases Value.ofExpr fresh e <;> rfl

variable {argument argument' : Option Expr}
  (same : Option.Rel (Expr.Serves fresh) argument argument')

include same

theorem read_serves {α : Type} (f : Option Value → Except ArgumentFault α) :
    (Argument.read fresh argument f).toOption = (Argument.read fresh argument' f).toOption := by
  have given : (value? fresh argument).toOption = (value? fresh argument').toOption := by
    cases same with
    | none => rfl
    | some serves => rw [value?_toOption, serves.value, value?_toOption]
  rw [Argument.read, toOption_bind, given, Argument.read, toOption_bind]

theorem literal?_serves (what : String) : literal? what argument = literal? what argument' := by
  cases same with
  | none => rfl
  | some serves => rw [literal?, serves.text, literal?]

theorem name_serves (what : String) :
    Argument.name what argument = Argument.name what argument' := by
  rw [Argument.name, literal?_serves same, Argument.name]

end Argument

/-! Methods and modifiers -/

theorem Parameter.set_serves {argument argument' : Option Expr}
    (same : Option.Rel (Expr.Serves fresh) argument argument') (op : Operation)
    (parameter : Parameter) :
    (parameter.set fresh argument op).toOption = (parameter.set fresh argument' op).toOption := by
  cases parameter <;>
    simp only [set, toOption_bind, Argument.read_serves same, Argument.literal?_serves same,
      Argument.name_serves same]

theorem Modifier.set_serves {argument argument' : Option Expr}
    (same : Option.Rel (Expr.Serves fresh) argument argument') (op : Operation)
    (modifier : Modifier) :
    (modifier.set fresh argument op).toOption = (modifier.set fresh argument' op).toOption := by
  cases modifier <;> simp only [set, toOption_bind, Argument.read_serves same]

section

variable {arguments others : List Expr}
  (same : List.Forall₂ (Expr.Serves fresh) arguments others)

include same

theorem getElem?_serves (i : Nat) : Option.Rel (Expr.Serves fresh) arguments[i]? others[i]? := by
  induction same generalizing i with
  | nil => exact .none
  | cons first _ ih =>
    cases i with
    | zero => exact .some first
    | succ i => exact ih i

theorem head?_serves : Option.Rel (Expr.Serves fresh) arguments.head? others.head? := by
  rw [List.head?_eq_getElem?, List.head?_eq_getElem?]
  exact getElem?_serves same 0

theorem Parameter.setAll_serves (parameters : List Parameter) (op : Operation) :
    (setAll fresh parameters arguments op).toOption =
      (setAll fresh parameters others op).toOption := by
  induction parameters generalizing arguments others op with
  | nil => rfl
  | cons parameter parameters ih =>
    have tail : List.Forall₂ (Expr.Serves fresh) arguments.tail others.tail := by
      cases same with
      | nil => exact .nil
      | cons _ behind => exact behind
    simp only [setAll, toOption_bind, parameter.set_serves (head?_serves same), ih tail]

theorem Method.setOptions_serves (method : Method) (op : Operation) :
    (method.setOptions fresh arguments op).toOption =
      (method.setOptions fresh others op).toOption := by
  unfold setOptions
  cases method.options with
  | none => rfl
  | some allowed =>
    simp only [toOption_bind, Argument.read_serves (getElem?_serves same _)]

theorem Method.call_serves (method : Method) (op : Operation) :
    (method.call fresh arguments op).toOption = (method.call fresh others op).toOption := by
  simp only [call, same.length_eq, toOption_bind, Parameter.setAll_serves same,
    method.setOptions_serves same]

end

/-! Calls -/

namespace MethodCall

variable {call call' : MethodCall}

theorem report_toOption {α : Type} (call : MethodCall) (outcome : Except CallFault α) :
    (call.report outcome).toOption = outcome.toOption := toOption_mapError outcome _

variable (serves : call.Serves fresh call')

include serves

theorem check_serves (registry : Registry) (context : CallContext) :
    registry.check context call = registry.check context call' := by
  rw [Registry.check, label, serves.name, Registry.check, label]

theorem apply_serves (method : Option Method) (op : Operation) :
    (call.apply fresh method op).toOption = (call'.apply fresh method op).toOption := by
  cases method with
  | none => rfl
  | some method =>
    simp only [apply, report_toOption, method.call_serves serves.arguments]

theorem modify_serves (op : Operation) :
    (call.modify fresh op).toOption = (call'.modify fresh op).toOption := by
  simp only [modify, toOption_bind, report_toOption, serves.arguments.length_eq, serves.name]
  cases Modifier.ofName? call'.name with
  | none => rfl
  | some modifier =>
    simp only [report_toOption, modifier.set_serves (head?_serves serves.arguments)]

end MethodCall

/-! Statements -/

namespace CollectionChain

theorem nextOperation_serves (registry : Registry) (op : Operation) {call call' : MethodCall}
    (serves : call.Serves fresh call') :
    (nextOperation registry fresh op call).toOption =
      (nextOperation registry fresh op call').toOption := by
  unfold nextOperation
  rw [MethodCall.check_serves serves, MethodCall.check_serves serves]
  split
  · rw [toOption_bind, toOption_bind]
    simp only [MethodCall.modify_serves serves]
  · rw [toOption_bind, toOption_bind]
    rfl

/-- Chains on one collection, call by call. -/
theorem operation_serves (registry : Registry) {chain chain' : CollectionChain}
    (collection : chain.collection = chain'.collection)
    (first : chain.first.Serves fresh chain'.first)
    (chained : List.Forall₂ (MethodCall.Serves fresh) chain.chained chain'.chained) :
    (chain.operation registry fresh).toOption = (chain'.operation registry fresh).toOption := by
  have start : (chain.firstOperation registry fresh).toOption =
      (chain'.firstOperation registry fresh).toOption := by
    unfold firstOperation
    simp only [toOption_bind, MethodCall.check_serves first, MethodCall.apply_serves first,
      collection, first.name, apply_ite Except.toOption, MethodCall.report_toOption]
  have goesOn (op : Operation) := Outcome.toOption_foldlM chained
    (fun op _ _ serves => nextOperation_serves registry op serves) op
  simp only [operation, toOption_bind, start, goesOn]

end CollectionChain

end MongoShell
