import MongoShell.Proofs.Operation.WellFormed
import MongoShell.Proofs.Statement.Alike

/-! Chains of calls, one call after the other. A call behind the first one is a modifier of a cursor
and sets one field; the kind and the collection stay those of the first call. A failure of a chain
is the failure of every longer one, and what a chain succeeds with says how each part of it ends. -/

namespace MongoShell

open Outcome

namespace Modifier

/-- What the argument of a modifier is read as. -/
def read (fresh : Fresh) (argument : Option Expr) :
    (modifier : Modifier) → Except CallFault modifier.field.Content
  | sort => Argument.read fresh argument (readDocument "sort specification")
  | limit => Argument.read fresh argument readInteger
  | skip => do
    let skip ← Argument.read fresh argument readInteger
    if skip < 0 then .error (.argument (.negative "skip")) else .ok skip
  | projection => Argument.read fresh argument (readDocument "projection")
  | hint =>
    Argument.read fresh argument
      (readRequired (.missing "an index name or key document") (Value.asIndex "hint"))
  | max => Argument.read fresh argument (readDocument "max bound")
  | min => Argument.read fresh argument (readDocument "min bound")

/-- A modifier puts what its argument is read as into its field, and does nothing else. -/
theorem set_eq_ok {fresh : Fresh} {argument : Option Expr} {before after : Operation}
    {modifier : Modifier} :
    modifier.set fresh argument before = .ok after ↔
      ∃ x, modifier.read fresh argument = .ok x ∧
        before.put modifier.field (some x) = after := by
  cases modifier
  case skip =>
    simp only [set, read, bind_eq_ok]
    constructor
    · rintro ⟨skip, given, rest⟩
      by_cases negative : skip < 0
      · simp [negative] at rest
      · rw [if_neg negative, Except.ok.injEq] at rest
        exact ⟨skip, ⟨skip, given, if_neg negative⟩, rest⟩
    · rintro ⟨x, ⟨skip, given, rest⟩, same⟩
      by_cases negative : skip < 0
      · simp [negative] at rest
      · rw [if_neg negative] at rest
        cases rest
        exact ⟨x, given, by rw [if_neg negative]; exact congrArg _ same⟩
  all_goals
    simp only [set, bind_eq_ok, Except.ok.injEq]
    rfl

theorem ofName?_eq_some {name : String} {modifier : Modifier} :
    ofName? name = some modifier ↔ name = modifier.name := by
  constructor
  · intro found
    have same := List.find?_some found
    exact (beq_iff_eq.mp same).symm
  · rintro rfl
    cases modifier <;> decide

end Modifier

theorem OperationKind.isCursor_iff {kind : OperationKind} :
    kind.isCursor = true ↔ kind = .find ∨ kind = .findOne := by
  cases kind <;> decide

/-- A call is allowed on a cursor, and its one argument is read as a content for the field of the
modifier that it names. -/
structure MethodCall.Modifies (registry : Registry) (fresh : Fresh) (call : MethodCall)
    (modifier : Modifier) (content : modifier.field.Content) : Prop where
  allowed : registry.check .cursor call = .ok ()
  single : Modifier.checkCount call.arguments.length = .ok ()
  named : call.name = modifier.name
  read : modifier.read fresh call.arguments.head? = .ok content

namespace CollectionChain

variable {registry : Registry} {fresh : Fresh}

/-! One more call -/

/-- All that one more call does. -/
theorem nextOperation_eq_ok {op after : Operation} {call : MethodCall} :
    nextOperation registry fresh op call = .ok after ↔ op.kind.isCursor = true ∧
      ∃ modifier content, call.Modifies registry fresh modifier content ∧
        op.put modifier.field (some content) = after := by
  unfold nextOperation
  split
  · rename_i cursor
    simp only [bind_eq_ok, MethodCall.modify, MethodCall.report, mapError_eq_ok, cursor, true_and]
    constructor
    · rintro ⟨_, allowed, _, single, set⟩
      split at set
      · rename_i modifier found
        obtain ⟨content, read, same⟩ := Modifier.set_eq_ok.mp ((mapError_eq_ok _ _ _).mp set)
        exact ⟨modifier, content, ⟨allowed, single, Modifier.ofName?_eq_some.mp found, read⟩, same⟩
      · cases set
    · rintro ⟨modifier, content, ⟨allowed, single, named, read⟩, same⟩
      refine ⟨(), allowed, (), single, ?_⟩
      rw [Modifier.ofName?_eq_some.mpr named]
      exact (mapError_eq_ok _ _ _).mpr (Modifier.set_eq_ok.mpr ⟨content, read, same⟩)
  · rename_i terminal
    refine ⟨fun done => ?_, fun done => absurd done.1 terminal⟩
    obtain ⟨_, _, refused⟩ := (bind_eq_ok _ _ _).mp done
    cases refused

/-! Several more calls -/

/-- The kind and the collection are those of the first call. -/
theorem foldlM_keeps {first last : Operation} {calls : List MethodCall}
    (run : calls.foldlM (nextOperation registry fresh) first = .ok last) :
    last.kind = first.kind ∧ last.collection = first.collection := by
  have kept (before : Operation) (call : MethodCall) (after : Operation)
      (held : before.kind = first.kind ∧ before.collection = first.collection)
      (next : nextOperation registry fresh before call = .ok after) :
      after.kind = first.kind ∧ after.collection = first.collection := by
    obtain ⟨-, modifier, content, -, rfl⟩ := nextOperation_eq_ok.mp next
    rwa [Operation.kind_put, Operation.collection_put]
  have ended := foldlM_invariant kept ⟨rfl, rfl⟩ run
  exact ended

/-- Only a cursor has a further call. -/
theorem isCursor_of_foldlM {first last : Operation} {calls : List MethodCall} (some : calls ≠ [])
    (run : calls.foldlM (nextOperation registry fresh) first = .ok last) :
    first.kind.isCursor = true := by
  cases calls with
  | nil => exact absurd rfl some
  | cons call calls =>
    obtain ⟨middle, next, -⟩ := (bind_eq_ok _ _ _).mp run
    exact (nextOperation_eq_ok.mp next).1

/-- A chain goes on where a shorter one ends. -/
theorem operation_append (chain : CollectionChain) (more : List MethodCall) :
    operation registry fresh { chain with chained := chain.chained ++ more } =
      chain.operation registry fresh >>= more.foldlM (nextOperation registry fresh) := by
  simp only [operation, List.foldlM_append, bind_assoc]
  rfl

/-- What values are made up does not matter to how a chain ends, but for these values. -/
theorem operation_fresh (registry : Registry) (fresh other : Fresh) (chain : CollectionChain) :
    Matches (Operation.Alike fresh other) (chain.operation registry fresh)
      (chain.operation registry other) :=
  operation_alike registry (.of_eraseSpans rfl)

/-- The first calls of a chain that has an operation have one, and the others go on from there. -/
theorem operation_part {chain : CollectionChain} {earlier later : List MethodCall} {op : Operation}
    (parted : chain.chained = earlier ++ later) (done : chain.operation registry fresh = .ok op) :
    ∃ part, operation registry fresh { chain with chained := earlier } = .ok part ∧
      later.foldlM (nextOperation registry fresh) part = .ok op := by
  obtain ⟨collection, first, chained⟩ := chain
  subst parted
  rw [operation_append ⟨collection, first, earlier⟩ later] at done
  exact (bind_eq_ok _ _ _).mp done

/-- A chain is read from left to right. Its failure is that of every longer chain; if it has an
operation, each part of it from the first call on has one, of the same kind and collection; and it
has more than one call only if the operation is a `find` or `findOne`, so a call behind any other
first call is a failure. All this holds whatever values are made up each time. -/
theorem operation_leftmost (registry : Registry) (chain : CollectionChain) (fresh other : Fresh) :
    (∀ e more, chain.operation registry fresh = .error e →
      operation registry other { chain with chained := chain.chained ++ more } = .error e) ∧
    (∀ op earlier later, chain.operation registry fresh = .ok op →
      chain.chained = earlier ++ later →
      ∃ part, operation registry other { chain with chained := earlier } = .ok part ∧
        part.kind = op.kind ∧ part.collection = op.collection) ∧
    (∀ op, chain.operation registry fresh = .ok op → chain.chained ≠ [] →
      op.kind = .find ∨ op.kind = .findOne) ∧
    (∀ op call more, chain.operation registry fresh = .ok op → op.kind.isCursor = false →
      ∃ e, operation registry other { chain with chained := chain.chained ++ call :: more } =
        .error e) := by
  refine ⟨fun e more failed => ?_, fun op earlier later done parted => ?_,
    fun op done several => ?_,
    fun op call more done terminal => ?_⟩
  · have alike := operation_fresh registry fresh other chain
    rw [failed] at alike
    rw [operation_append, alike.eq_error]
    rfl
  · obtain ⟨part, ended, rest⟩ := operation_part parted done
    have alike := operation_fresh registry fresh other { chain with chained := earlier }
    rw [ended] at alike
    obtain ⟨again, same, alike⟩ := alike.exists_ok
    obtain ⟨kind, collection⟩ := foldlM_keeps rest
    exact ⟨again, same, by rw [kind, alike.kind], by rw [collection, alike.collection]⟩
  · obtain ⟨first, -, run⟩ := (bind_eq_ok _ _ _).mp done
    have cursor := isCursor_of_foldlM several run
    rw [← (foldlM_keeps run).1] at cursor
    exact OperationKind.isCursor_iff.mp cursor
  · have alike := operation_fresh registry fresh other chain
    rw [done] at alike
    obtain ⟨again, same, alike⟩ := alike.exists_ok
    cases longer : operation registry other
        { chain with chained := chain.chained ++ call :: more } with
    | error e => exact ⟨e, rfl⟩
    | ok last =>
      rw [operation_append, same] at longer
      have cursor := isCursor_of_foldlM (List.cons_ne_nil call more) longer
      rw [← alike.kind, terminal] at cursor
      cases cursor

end CollectionChain

end MongoShell
