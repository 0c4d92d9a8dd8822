import Mathlib
import MongoShell.Proofs.Method.OptionType
import MongoShell.Proofs.Statement.Chain

/-! The options of a whole statement. A statement has one call that takes options, the first one on
a collection or the command on the database handle, and asks for an operation only if the document
that it gives keeps to the table of that method. -/

namespace MongoShell

open Outcome

/-- The call that makes the operation of a statement, with its method. The calls chained to it are
modifiers, which take no options. -/
def StatementKind.methodCall? : StatementKind → Option (Method × MethodCall)
  | database (.collection chain) => (Method.ofName? chain.first.name).map (·, chain.first)
  | database (.command handled call) => some (Method.ofCommand handled, call)
  | _ => none

theorem MethodCall.apply_eq_ok {call : MethodCall} {fresh : Fresh} {method : Method}
    {before after : Operation} (done : call.apply fresh (some method) before = .ok after) :
    method.call fresh call.arguments before = .ok after ∧ after.kind = method.kind := by
  have called := (mapError_eq_ok _ _ _).mp done
  refine ⟨called, ?_⟩
  simp only [Method.call, bind_eq_ok] at called
  obtain ⟨_, _, _, _, _, _, _, _, same⟩ := called
  cases same
  rfl

/-- The call of a statement that asks for an operation has been applied to some operation, and its
method is of the operation's kind and has the options of the table of this kind. -/
theorem Statement.methodCall_applied {registry : Registry} {fresh : Fresh} {statement : Statement}
    {op : Operation} {method : Method} {call : MethodCall}
    (translated : statement.operation registry fresh = .ok op)
    (made : statement.kind.methodCall? = some (method, call)) :
    op.kind = method.kind ∧
      method.kind.optionTypes = (method.options.getD []).flatMap MethodOption.types ∧
      ∃ before after, method.call fresh call.arguments before = .ok after := by
  unfold operation at translated
  unfold StatementKind.methodCall? at made
  split at made
  · rename_i chain same
    obtain ⟨method', found, ⟨⟩⟩ := Option.map_eq_some_iff.mp made
    rw [same] at translated
    obtain ⟨first, started, run⟩ := (bind_eq_ok _ _ _).mp translated
    obtain ⟨_, _, started⟩ := (bind_eq_ok _ _ _).mp started
    obtain ⟨after, applied, addressed⟩ := (bind_eq_ok _ _ _).mp started
    rw [found] at applied
    obtain ⟨called, kind⟩ := MethodCall.apply_eq_ok applied
    have kept : first = after := by
      split at addressed
      · cases addressed
      · cases addressed
        rfl
    refine ⟨?_, Method.ofCollection_optionTypes method (List.mem_of_find?_eq_some found), _, _,
      called⟩
    rw [(CollectionChain.foldlM_keeps run).1, kept, kind]
  · rename_i handled call' same
    cases made
    rw [same] at translated
    obtain ⟨_, _, applied⟩ := (bind_eq_ok _ _ _).mp translated
    obtain ⟨called, kind⟩ := MethodCall.apply_eq_ok applied
    exact ⟨kind, Method.ofCommand_optionTypes handled, _, _, called⟩
  · cases made

/-- Options keep to their types. A statement whose method takes options asks for an operation only
if the options document that is given, or the empty one where none is, has no key that is not in the
table of the operation's kind, and under each key of the table a value of its type if any counts
there; only a `returnNewDocument` may be anything where a `returnDocument` takes its place. -/
theorem Statement.options_keep_types {registry : Registry} {fresh : Fresh} {statement : Statement}
    {op : Operation} {method : Method} {call : MethodCall} {allowed : List MethodOption}
    (translated : statement.operation registry fresh = .ok op)
    (made : statement.kind.methodCall? = some (method, call))
    (takes : method.options = some allowed) :
    ∃ options, Argument.Gives fresh (call.arguments[method.parameters.length]?) options ∧
      (∀ key ∈ options.keys, key ∈ op.kind.optionTypes.map Prod.fst) ∧
      ∀ key type, (key, type) ∈ op.kind.optionTypes →
        ∀ value, options.option? key = some value → options.Overruled key ∨ type.Admits value := by
  obtain ⟨kind, table, before, after, called⟩ := methodCall_applied translated made
  obtain ⟨options, gives, known, typed⟩ := Method.call_keepsTo takes table called
  rw [kind]
  exact ⟨options, gives, known, typed⟩

/-! Calls on `db.users` -/

/-- A statement that is one call of a method on `users`. -/
def usersStatement (name : String) (arguments : List Expr) : Statement :=
  ⟨.database (.collection ⟨.member "users", ⟨name, arguments, Expr.nowhere⟩, []⟩), "",
    Expr.nowhere⟩

/-- The options `{limit: "5", hint: null, limit: 7}`. -/
def repeatedLimit : Expr :=
  .object Expr.nowhere [.mk "limit" Expr.nowhere (.string Expr.nowhere "5"),
    .mk "hint" Expr.nowhere (.null Expr.nowhere),
    .mk "limit" Expr.nowhere (.number Expr.nowhere "7")]

/-- A last entry counts and a null does not. -/
theorem Statement.repeatedLimit_keeps_types :
    ∃ options, Argument.Gives (Fresh.ofSeed 0 0) (some repeatedLimit) options ∧
      (∀ key ∈ options.keys, key ∈ OperationKind.countDocuments.optionTypes.map Prod.fst) ∧
      ∀ key type, (key, type) ∈ OperationKind.countDocuments.optionTypes →
        ∀ value, options.option? key = some value → options.Overruled key ∨ type.Admits value := by
  have translated : (usersStatement "countDocuments" [.null Expr.nowhere, repeatedLimit]).operation
      Registry.builtin (Fresh.ofSeed 0 0) =
        .ok { kind := .countDocuments, collection := "users", limit := some 7 } := by cbv
  exact options_keep_types translated rfl rfl

/-- A new state that is asked for by name and, in the older way, by something that is no truth
value: `{returnDocument: "after", returnNewDocument: 5}`. -/
def twoStates : Expr :=
  .object Expr.nowhere [.mk "returnDocument" Expr.nowhere (.string Expr.nowhere "after"),
    .mk "returnNewDocument" Expr.nowhere (.number Expr.nowhere "5")]

/-- Not every option that is given has a value of its type: beside a `returnDocument`, a number is
let through under `returnNewDocument`. -/
theorem Statement.overruled_option_is_untyped :
    ¬∀ registry fresh (statement : Statement) op method call allowed,
      statement.operation registry fresh = .ok op →
      statement.kind.methodCall? = some (method, call) → method.options = some allowed →
      ∃ options, Argument.Gives fresh (call.arguments[method.parameters.length]?) options ∧
        (∀ key ∈ options.keys, key ∈ op.kind.optionTypes.map Prod.fst) ∧
        ∀ key type, (key, type) ∈ op.kind.optionTypes →
          ∀ value, options.option? key = some value → type.Admits value := by
  intro always
  have translated : (usersStatement "findOneAndUpdate" [.object Expr.nowhere [],
      .array Expr.nowhere [], twoStates]).operation Registry.builtin (Fresh.ofSeed 0 0) =
        .ok { kind := .findOneAndUpdate, collection := "users", filter := some [],
              update := some (.pipeline []), returnDocument := some .after } := by cbv
  obtain ⟨options, gives, -, typed⟩ := always _ _ _ _ _ _ _ translated rfl rfl
  have converted : Value.ofExpr (Fresh.ofSeed 0 0) twoStates =
      .ok (.document [("returnDocument", .string "after"), ("returnNewDocument", .int32 5)]) := rfl
  rcases gives with read | ⟨read, -⟩
  · obtain rfl := Value.document.inj (Except.ok.inj (converted.symm.trans read))
    obtain ⟨b, truth⟩ := typed "returnNewDocument" .boolean (by decide) (.int32 5) rfl
    cases truth
  · cases converted.symm.trans read

end MongoShell
