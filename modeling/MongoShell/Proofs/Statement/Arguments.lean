import Mathlib
import MongoShell.Proofs.Method.Given
import MongoShell.Proofs.Statement.Options

/-! Statements that differ in the arguments of one call. The call that makes the operation of a
statement is looked at for its method's sake and for its arguments', so the arguments count only by
what the method makes of them: a null behind them counts as absent, and an options document as a map
from keys to values. -/

namespace MongoShell

open Outcome

/-- The kind of statement with other arguments for the call that makes its operation. -/
def StatementKind.withArguments (arguments : List Expr) : StatementKind → StatementKind
  | database (.collection chain) =>
    database (.collection { chain with first := { chain.first with arguments } })
  | database (.command handled call) => database (.command handled { call with arguments })
  | kind => kind

/-- The operation of a statement in three steps: something that does not depend on the arguments of
its call, what the method makes of them, and something that depends on that alone. -/
theorem Statement.exists_operation_eq (registry : Registry) (fresh : Fresh) {statement : Statement}
    {method : Method} {call : MethodCall}
    (made : statement.kind.methodCall? = some (method, call)) :
    ∃ (check : Except StatementError Unit) (start : Operation)
      (finish : Operation → Except StatementError Operation),
      ∀ arguments (other : Statement), other.kind = statement.kind.withArguments arguments →
        other.operation registry fresh = check >>= fun _ =>
          (method.call fresh arguments start).mapError (.badCall call.label) >>= finish := by
  unfold StatementKind.methodCall? at made
  split at made
  · rename_i chain same
    obtain ⟨method', found, ⟨⟩⟩ := Option.map_eq_some_iff.mp made
    refine ⟨registry.check .collection chain.first,
      { kind := .unknown, collection := chain.collection.name },
      fun op =>
        (if op.kind.isCollectionScoped ∧ chain.collection.name = "" then
          chain.first.report (.error (.argument .noCollectionName)) else .ok op) >>= fun op =>
        chain.chained.foldlM (CollectionChain.nextOperation registry fresh) op, ?_⟩
    intro arguments other changed
    rw [same] at changed
    rw [operation, changed]
    change (CollectionChain.firstOperation registry fresh
      { chain with first := { chain.first with arguments } } >>= _) = _
    unfold CollectionChain.firstOperation
    simp only [found, MethodCall.apply, MethodCall.report, bind_assoc]
    rfl
  · rename_i handled call' same
    cases made
    refine ⟨registry.check .database call, { kind := .unknown }, .ok, ?_⟩
    intro arguments other changed
    rw [same] at changed
    rw [operation, changed]
    change (registry.check .database call >>= fun _ =>
      (Method.call _ fresh arguments _).mapError _) = _
    congr 1
    funext _
    cases (Method.ofCommand handled).call fresh arguments { kind := .unknown } <;> rfl
  · cases made

theorem StatementKind.withArguments_self {kind : StatementKind} {method : Method}
    {call : MethodCall} (made : kind.methodCall? = some (method, call)) :
    kind.withArguments call.arguments = kind := by
  unfold methodCall? at made
  split at made
  · obtain ⟨_, _, ⟨⟩⟩ := Option.map_eq_some_iff.mp made
    rfl
  · cases made
    rfl
  · cases made

/-- No operation comes of a statement whose method refuses the arguments of its call. -/
theorem Statement.operation_ne_ok {registry : Registry} {fresh : Fresh} {statement : Statement}
    {method : Method} {call : MethodCall} {fault : CallFault}
    (made : statement.kind.methodCall? = some (method, call))
    (refused : ∀ before, method.call fresh call.arguments before = .error fault) (op : Operation) :
    statement.operation registry fresh ≠ .ok op := by
  obtain ⟨check, start, finish, operations⟩ := exists_operation_eq registry fresh made
  rw [operations _ _ (StatementKind.withArguments_self made).symm, refused start]
  intro asked
  obtain ⟨_, -, rest⟩ := (bind_eq_ok _ _ _).mp asked
  cases rest

/-! A null behind the arguments -/

/-- Only one method takes a name for an index where a null would be no name. -/
theorem Method.indexName_not_mem {method : Method}
    (known : method ∈ ofCollection ∨ ∃ command, method = ofCommand command)
    (other : method.kind ≠ .dropIndexes) : .indexName ∉ method.parameters := by
  have ofCollections : ∀ method ∈ ofCollection, method.kind ≠ .dropIndexes →
      .indexName ∉ method.parameters := by decide
  rcases known with member | ⟨command, rfl⟩
  · exact ofCollections method member other
  · cases command <;> decide

theorem Method.eq_dropIndexes {method : Method}
    (known : method ∈ ofCollection ∨ ∃ command, method = ofCommand command)
    (kind : method.kind = .dropIndexes) : method = ⟨.dropIndexes, [.indexName], none, false⟩ := by
  have only : ∀ method ∈ ofCollection, method.kind = .dropIndexes →
      method.parameters = [.indexName] ∧ method.options = none ∧ method.exact = false := by decide
  rcases known with member | ⟨command, rfl⟩
  · obtain ⟨parameters, options, all⟩ := only method member kind
    cases method
    simp_all
  · cases command <;> cases kind

theorem StatementKind.method_known {kind : StatementKind} {method : Method} {call : MethodCall}
    (made : kind.methodCall? = some (method, call)) :
    method ∈ Method.ofCollection ∨ ∃ command, method = Method.ofCommand command := by
  unfold methodCall? at made
  split at made
  · obtain ⟨_, found, ⟨⟩⟩ := Option.map_eq_some_iff.mp made
    exact .inl (List.mem_of_find?_eq_some found)
  · cases made
    exact .inr ⟨_, rfl⟩
  · cases made

/-- A null counts as absent. Where a statement asks for an operation and its call leaves room for
one more argument, the statement with a null in that place asks for the same operation. Only the
index that `dropIndexes` takes has to be named by a literal if it is there at all, and a null is
refused. -/
theorem Statement.null_counts_as_absent {registry : Registry} {fresh : Fresh}
    {statement other : Statement} {method : Method} {call : MethodCall} {op : Operation}
    {nothing : Expr} (made : statement.kind.methodCall? = some (method, call))
    (shorter : call.arguments.length < method.capacity) (null : nothing.WritesNull)
    (extended : other.kind = statement.kind.withArguments (call.arguments ++ [nothing]))
    (translated : statement.operation registry fresh = .ok op) :
    if method.kind = .dropIndexes then
      other.operation registry fresh =
        .error (.badCall call.label (.argument (.notLiteral "index name")))
    else other.operation registry fresh = .ok op := by
  obtain ⟨check, start, finish, operations⟩ := exists_operation_eq registry fresh made
  rw [operations _ _ (StatementKind.withArguments_self made).symm] at translated
  rw [operations _ _ extended]
  obtain ⟨_, passed, rest⟩ := (bind_eq_ok _ _ _).mp translated
  obtain ⟨after, applied, finished⟩ := (bind_eq_ok _ _ _).mp rest
  have called := (mapError_eq_ok _ _ _).mp applied
  have known := StatementKind.method_known made
  rw [passed]
  split
  · rename_i kind
    obtain rfl := Method.eq_dropIndexes known kind
    have noArguments : call.arguments = [] := by
      have count : call.arguments.length < 1 := shorter
      exact List.eq_nil_of_length_eq_zero (by omega)
    rw [noArguments, List.nil_append, Method.call_null_refused null rfl rfl]
    rfl
  · rename_i kind
    rw [Method.call_null null (Method.indexName_not_mem known kind) shorter called]
    exact finished

/-- An `undefined` for whether to drop the target of a renaming is as good as nothing. -/
theorem Statement.undefined_dropTarget_counts_as_absent :
    (usersStatement "renameCollection" [.string Expr.nowhere "archive",
        .identifier Expr.nowhere "undefined"]).operation Registry.builtin (Fresh.ofSeed 0 0) =
      .ok { kind := .renameCollection, collection := "users", newName := some "archive" } := by
  have translated : (usersStatement "renameCollection"
      [.string Expr.nowhere "archive"]).operation Registry.builtin (Fresh.ofSeed 0 0) =
        .ok { kind := .renameCollection, collection := "users", newName := some "archive" } := by
    cbv
  have extended : (usersStatement "renameCollection" [.string Expr.nowhere "archive",
      .identifier Expr.nowhere "undefined"]).kind =
      (usersStatement "renameCollection" [.string Expr.nowhere "archive"]).kind.withArguments
        ([.string Expr.nowhere "archive"] ++ [.identifier Expr.nowhere "undefined"]) := rfl
  exact null_counts_as_absent rfl (by decide) (.undefined Expr.nowhere) extended translated

/-- Not every null counts as absent: `dropIndexes()` asks for an operation, `dropIndexes(null)` for
none. -/
theorem Statement.null_index_is_refused :
    ¬∀ registry fresh (statement other : Statement) method call op (nothing : Expr),
      statement.kind.methodCall? = some (method, call) →
      call.arguments.length < method.capacity → nothing.WritesNull →
      other.kind = statement.kind.withArguments (call.arguments ++ [nothing]) →
      statement.operation registry fresh = .ok op → other.operation registry fresh = .ok op := by
  have translated : (usersStatement "dropIndexes" []).operation Registry.builtin
      (Fresh.ofSeed 0 0) = .ok { kind := .dropIndexes, collection := "users" } := by cbv
  intro always
  have accepted := always Registry.builtin (Fresh.ofSeed 0 0) (usersStatement "dropIndexes" [])
    (usersStatement "dropIndexes" [.null Expr.nowhere]) ⟨.dropIndexes, [.indexName], none, false⟩
    ⟨"dropIndexes", [], Expr.nowhere⟩ _ (.null Expr.nowhere) rfl (by decide)
    (.null Expr.nowhere) rfl translated
  have made : (usersStatement "dropIndexes" [.null Expr.nowhere]).kind.methodCall? =
      some (⟨.dropIndexes, [.indexName], none, false⟩,
        ⟨"dropIndexes", [.null Expr.nowhere], Expr.nowhere⟩) := rfl
  exact operation_ne_ok made (Method.call_null_refused (.null Expr.nowhere) rfl rfl) _ accepted

/-! Options as a map -/

/-- An options document is a map. Where two statements differ only in the options document of their
call, and neither document has a key that is no option, the statements ask for the same operation or
are refused for the same reason, if under each key the same value comes last in both documents. An
absent key is as good as one with a null. -/
theorem Statement.options_are_a_map {registry : Registry} {fresh : Fresh}
    {statement other : Statement} {method : Method} {call : MethodCall}
    {allowed : List MethodOption} {first second : Expr} {options others : Document}
    (made : statement.kind.methodCall? = some (method, call))
    (takes : method.options = some allowed)
    (given : call.arguments[method.parameters.length]? = some first)
    (changed : other.kind =
      statement.kind.withArguments (call.arguments.set method.parameters.length second))
    (converted : Value.ofExpr fresh first = .ok (.document options))
    (converted' : Value.ofExpr fresh second = .ok (.document others))
    (known : ∀ key ∈ options.keys, key ∈ allowed.flatMap MethodOption.keys)
    (known' : ∀ key ∈ others.keys, key ∈ allowed.flatMap MethodOption.keys)
    (same : options.Agrees others) :
    other.operation registry fresh = statement.operation registry fresh := by
  obtain ⟨check, start, finish, operations⟩ := exists_operation_eq registry fresh made
  rw [operations _ _ changed, operations _ _ (StatementKind.withArguments_self made).symm,
    Method.call_options_congr takes given converted converted' known known' same]

/-- The options `{limit: "5", hint: null, limit: 7}` are as good as `{limit: 7}`. -/
theorem Statement.repeatedLimit_is_limit :
    (usersStatement "countDocuments" [.null Expr.nowhere,
        .object Expr.nowhere [.mk "limit" Expr.nowhere (.number Expr.nowhere "7")]]).operation
        Registry.builtin (Fresh.ofSeed 0 0) =
      (usersStatement "countDocuments" [.null Expr.nowhere, repeatedLimit]).operation
        Registry.builtin (Fresh.ofSeed 0 0) := by
  have same : Document.Agrees [("limit", .string "5"), ("hint", .null), ("limit", .int32 7)]
      [("limit", .int32 7)] := by
    intro key
    by_cases limit : "limit" = key <;> by_cases hint : "hint" = key <;>
      simp [Document.get?, limit, hint]
  exact options_are_a_map rfl rfl rfl rfl rfl rfl (by decide) (by decide) same

end MongoShell
