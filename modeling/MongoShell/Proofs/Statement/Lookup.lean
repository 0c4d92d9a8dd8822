import MongoShell.Proofs.Statement.Chain

/-! What statements look up in the registry. An operation depends on the registry in one way only:
every method that the statement calls has to be supported in the context of the call. A call that is
not supported is refused as the registry has it, before its arguments are looked at. -/

namespace MongoShell

open Outcome

/-! What is looked up -/

/-- The methods of a chain, each with the context it is called in. -/
def CollectionChain.lookups (chain : CollectionChain) : List (CallContext × String) :=
  (.collection, chain.first.name) :: chain.chained.map fun call => (.cursor, call.name)

def DatabaseStatement.lookups : DatabaseStatement → List (CallContext × String)
  | collection chain => chain.lookups
  | command _ call => [(.database, call.name)]
  | method call => [(.database, call.name)]

/-- The methods that a statement looks up in the registry. The shell's own commands and expressions
that are no calls on the database look up none. -/
def Statement.lookups (statement : Statement) : List (CallContext × String) :=
  match statement.kind with
  | .database database => database.lookups
  | .shell _ => []
  | .expression _ => []

/-- Every one of some methods is supported in its context. -/
def Registry.Supports (registry : Registry) (lookups : List (CallContext × String)) : Prop :=
  ∀ lookup ∈ lookups, registry.classify lookup.1 lookup.2 = .supported

/-- The error that a classification makes of a call. There is none for a supported method. -/
inductive MethodCall.Refusal (call : MethodCall) : Classification → StatementError → Prop
  | planned (hint : Option String) : Refusal call (.planned hint) (.planned call.label hint)
  | unsupported (hint : Option String) :
      Refusal call (.unsupported hint) (.unsupported call.label hint)
  | deprecated (alternative : String) :
      Refusal call (.deprecated alternative) (.deprecated call.label alternative)

namespace Registry

theorem check_eq_ok {registry : Registry} {context : CallContext} {call : MethodCall} :
    registry.check context call = .ok () ↔ registry.classify context call.name = .supported := by
  unfold check
  cases registry.classify context call.name <;> simp

theorem check_refusal {registry : Registry} {context : CallContext} {call : MethodCall}
    (refused : registry.classify context call.name ≠ .supported) :
    ∃ e, call.Refusal (registry.classify context call.name) e ∧
      registry.check context call = .error e := by
  unfold check
  cases found : registry.classify context call.name with
  | supported => exact absurd found refused
  | planned hint => exact ⟨_, .planned hint, rfl⟩
  | unsupported hint => exact ⟨_, .unsupported hint, rfl⟩
  | deprecated alternative => exact ⟨_, .deprecated alternative, rfl⟩

end Registry

namespace CollectionChain

variable {registry : Registry} {fresh : Fresh}

/-! Calls that are supported -/

theorem firstOperation_lookup {chain : CollectionChain} {op : Operation}
    (done : chain.firstOperation registry fresh = .ok op) :
    registry.classify .collection chain.first.name = .supported ∧
      ∀ other : Registry, other.classify .collection chain.first.name = .supported →
        chain.firstOperation other fresh = .ok op := by
  simp only [firstOperation, bind_eq_ok] at done ⊢
  obtain ⟨_, allowed, applied⟩ := done
  refine ⟨Registry.check_eq_ok.mp allowed, ?_⟩
  intro other supported
  exact ⟨(), Registry.check_eq_ok.mpr supported, applied⟩

theorem nextOperation_lookup {op after : Operation} {call : MethodCall}
    (done : nextOperation registry fresh op call = .ok after) :
    registry.classify .cursor call.name = .supported ∧
      ∀ other : Registry, other.classify .cursor call.name = .supported →
        nextOperation other fresh op call = .ok after := by
  obtain ⟨cursor, modifier, content, modifies, same⟩ := nextOperation_eq_ok.mp done
  refine ⟨Registry.check_eq_ok.mp modifies.allowed, ?_⟩
  intro other supported
  apply nextOperation_eq_ok.mpr
  exact ⟨cursor, modifier, content,
    ⟨Registry.check_eq_ok.mpr supported, modifies.single, modifies.named, modifies.read⟩, same⟩

theorem foldlM_lookups {calls : List MethodCall} {first last : Operation}
    (run : calls.foldlM (nextOperation registry fresh) first = .ok last) :
    (∀ call ∈ calls, registry.classify .cursor call.name = .supported) ∧
      ∀ other : Registry, (∀ call ∈ calls, other.classify .cursor call.name = .supported) →
        calls.foldlM (nextOperation other fresh) first = .ok last := by
  induction calls generalizing first with
  | nil =>
    cases run
    exact ⟨by simp, fun other _ => rfl⟩
  | cons call calls ih =>
    rw [List.foldlM_cons] at run
    obtain ⟨middle, next, others⟩ := (bind_eq_ok _ _ _).mp run
    obtain ⟨supported, same⟩ := nextOperation_lookup next
    obtain ⟨supportedMore, sameMore⟩ := ih others
    refine ⟨List.forall_mem_cons.mpr ⟨supported, supportedMore⟩, ?_⟩
    intro other all
    obtain ⟨head, tail⟩ := List.forall_mem_cons.mp all
    rw [foldlM_cons_ok (same other head)]
    exact sameMore other tail

/-- A chain that has an operation has all its methods supported, and has the same operation
wherever they are. -/
theorem operation_lookups {chain : CollectionChain} {op : Operation}
    (done : chain.operation registry fresh = .ok op) :
    registry.Supports chain.lookups ∧
      ∀ other : Registry, other.Supports chain.lookups → chain.operation other fresh = .ok op := by
  have supports (some : Registry) : some.Supports chain.lookups ↔
      some.classify .collection chain.first.name = .supported ∧
        ∀ call ∈ chain.chained, some.classify .cursor call.name = .supported := by
    simp [Registry.Supports, lookups]
  obtain ⟨first, begun, run⟩ := (bind_eq_ok _ _ _).mp done
  obtain ⟨supported, same⟩ := firstOperation_lookup begun
  obtain ⟨supportedMore, sameMore⟩ := foldlM_lookups run
  refine ⟨(supports registry).mpr ⟨supported, supportedMore⟩, ?_⟩
  intro other all
  obtain ⟨head, tail⟩ := (supports other).mp all
  exact (bind_eq_ok _ _ _).mpr ⟨first, same other head, sameMore other tail⟩

/-! The call that a chain comes to -/

/-- A chain is read as far as a call, which is looked up in a context: the first call as one on the
collection, and a call behind others that have an operation as one on a cursor if theirs is a `find`
or `findOne`, else as one on the collection again. What values the others make up is no matter. -/
inductive ComesTo (registry : Registry) (chain : CollectionChain) : CallContext → MethodCall → Prop
  | first : ComesTo registry chain .collection chain.first
  | cursor {fresh : Fresh} {earlier later : List MethodCall} {call : MethodCall} {op : Operation}
      (parted : chain.chained = earlier ++ call :: later)
      (done : operation registry fresh { chain with chained := earlier } = .ok op)
      (kind : op.kind = .find ∨ op.kind = .findOne) : ComesTo registry chain .cursor call
  | terminal {fresh : Fresh} {earlier later : List MethodCall} {call : MethodCall} {op : Operation}
      (parted : chain.chained = earlier ++ call :: later)
      (done : operation registry fresh { chain with chained := earlier } = .ok op)
      (kind : ¬(op.kind = .find ∨ op.kind = .findOne)) : ComesTo registry chain .collection call

/-- A call that fails behind others makes the whole chain fail. -/
theorem operation_fails {chain : CollectionChain} {other : Fresh} {earlier later : List MethodCall}
    {call : MethodCall} {op : Operation} {e : StatementError}
    (parted : chain.chained = earlier ++ call :: later)
    (done : operation registry other { chain with chained := earlier } = .ok op)
    (fails : ∀ part : Operation, part.kind = op.kind →
      nextOperation registry fresh part call = .error e) :
    chain.operation registry fresh = .error e := by
  have alike := operation_fresh registry other fresh { chain with chained := earlier }
  rw [done] at alike
  obtain ⟨part, again, held⟩ := alike.exists_ok
  have whole : chain = { chain with chained := earlier ++ call :: later } := by rw [← parted]
  rw [whole, operation_append { chain with chained := earlier } (call :: later), again]
  change (call :: later).foldlM (nextOperation registry fresh) part = .error e
  rw [List.foldlM_cons, fails part held.kind.symm]
  rfl

theorem operation_refused {chain : CollectionChain} {context : CallContext} {call : MethodCall}
    (comes : chain.ComesTo registry context call)
    (refused : registry.classify context call.name ≠ .supported) :
    ∃ e, call.Refusal (registry.classify context call.name) e ∧
      chain.operation registry fresh = .error e := by
  obtain ⟨e, refusal, checked⟩ := Registry.check_refusal refused
  refine ⟨e, refusal, ?_⟩
  cases comes with
  | first =>
    simp only [operation, firstOperation, checked]
    rfl
  | cursor parted done kind =>
    apply operation_fails parted done
    intro part same
    have cursor : part.kind.isCursor = true := by rwa [same, OperationKind.isCursor_iff]
    rw [nextOperation, if_pos cursor, checked]
    rfl
  | terminal parted done kind =>
    apply operation_fails parted done
    intro part same
    have noCursor : ¬(part.kind.isCursor = true) := by rwa [same, OperationKind.isCursor_iff]
    rw [nextOperation, if_neg noCursor, checked]
    rfl

end CollectionChain

/-- A statement is read as far as a call, which is looked up in a context. -/
inductive Statement.ComesTo (registry : Registry) (statement : Statement) :
    CallContext → MethodCall → Prop
  | collection {chain : CollectionChain} {context : CallContext} {call : MethodCall}
      (kind : statement.kind = .database (.collection chain))
      (comes : chain.ComesTo registry context call) : ComesTo registry statement context call
  | command {handled : DatabaseCommand} {call : MethodCall}
      (kind : statement.kind = .database (.command handled call)) :
      ComesTo registry statement .database call
  | method {call : MethodCall} (kind : statement.kind = .database (.method call)) :
      ComesTo registry statement .database call

theorem DatabaseStatement.operation_lookups {registry : Registry} {fresh : Fresh}
    {statement : DatabaseStatement} {op : Operation}
    (done : statement.operation registry fresh = .ok op) :
    registry.Supports statement.lookups ∧
      ∀ other : Registry, other.Supports statement.lookups →
        statement.operation other fresh = .ok op := by
  cases statement with
  | collection chain => exact CollectionChain.operation_lookups done
  | command handled call =>
    obtain ⟨_, allowed, applied⟩ := (bind_eq_ok _ _ _).mp done
    refine ⟨by simpa [Registry.Supports, lookups] using Registry.check_eq_ok.mp allowed, ?_⟩
    intro other all
    have supported := all (.database, call.name) (.head _)
    exact (bind_eq_ok _ _ _).mpr ⟨(), Registry.check_eq_ok.mpr supported, applied⟩
  | method call =>
    obtain ⟨_, _, applied⟩ := (bind_eq_ok _ _ _).mp done
    cases applied

/-- The registry admits methods and does nothing else. A statement that has an operation has every
method it calls supported, the first of a chain on the collection, those behind it on the cursor and
a database method on the database; and it has the same operation under every other registry that
supports them. Where a statement comes to a call that is not supported, it fails with what the
registry has of this very call, whatever its arguments are. -/
theorem Statement.registry_admits_only (registry : Registry) (fresh : Fresh)
    (statement : Statement) :
    (∀ op, statement.operation registry fresh = .ok op →
      registry.Supports statement.lookups ∧
        ∀ other : Registry, other.Supports statement.lookups →
          statement.operation other fresh = .ok op) ∧
    ∀ context call, statement.ComesTo registry context call →
      registry.classify context call.name ≠ .supported →
        ∃ e, call.Refusal (registry.classify context call.name) e ∧
          statement.operation registry fresh = .error e := by
  obtain ⟨kind, text, span⟩ := statement
  refine ⟨?_, ?_⟩
  · intro op done
    cases kind with
    | shell command => exact ⟨by simp [Registry.Supports, lookups], fun _ _ => done⟩
    | database database => exact DatabaseStatement.operation_lookups done
    | expression e => cases done
  · intro context call comes refused
    cases comes with
    | collection same comes =>
      cases same
      exact CollectionChain.operation_refused comes refused
    | command same =>
      cases same
      obtain ⟨e, refusal, checked⟩ := Registry.check_refusal refused
      refine ⟨e, refusal, ?_⟩
      simp only [Statement.operation, DatabaseStatement.operation, checked]
      rfl
    | method same =>
      cases same
      obtain ⟨e, refusal, checked⟩ := Registry.check_refusal refused
      refine ⟨e, refusal, ?_⟩
      simp only [Statement.operation, DatabaseStatement.operation, checked]
      rfl

end MongoShell
