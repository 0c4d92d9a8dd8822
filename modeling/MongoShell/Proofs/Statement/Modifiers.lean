import Mathlib
import MongoShell.Proofs.Statement.Chain

/-! Modifiers behind a `find` or `findOne`. Each field that modifiers set holds what the last
modifier of its name has read, and every other field is the one of the first call. So it does not
matter in what order modifiers stand, nor which others they override, as long as the last one of
each name is the same. -/

namespace MongoShell

open Outcome

namespace Modifier

/-- The last call that names a modifier. -/
def lastCall? (modifier : Modifier) (calls : List MethodCall) : Option MethodCall :=
  calls.reverse.find? (·.name == modifier.name)

theorem lastCall?_append (modifier : Modifier) (earlier later : List MethodCall) :
    modifier.lastCall? (earlier ++ later) =
      (modifier.lastCall? later).or (modifier.lastCall? earlier) := by
  rw [lastCall?, List.reverse_append, List.find?_append]
  rfl

theorem lastCall?_single (modifier : Modifier) (call : MethodCall) :
    modifier.lastCall? [call] = if call.name = modifier.name then some call else none := by
  by_cases named : call.name = modifier.name <;> simp [lastCall?, named]

theorem lastCall?_cons (modifier : Modifier) (call : MethodCall) (later : List MethodCall) :
    modifier.lastCall? (call :: later) = (modifier.lastCall? later).or
      (if call.name = modifier.name then some call else none) := by
  rw [← List.singleton_append, lastCall?_append, lastCall?_single]

/-- There is no last call exactly if there is none at all. -/
theorem lastCall?_eq_none {modifier : Modifier} {calls : List MethodCall} :
    modifier.lastCall? calls = none ↔ ∀ call ∈ calls, call.name ≠ modifier.name := by
  simp [lastCall?]

theorem name_injective : Function.Injective name := by
  intro first second
  cases first <;> cases second <;> decide

theorem field_injective : Function.Injective field := by
  intro first second
  cases first <;> cases second <;> decide

end Modifier

namespace CollectionChain

variable {registry : Registry} {fresh : Fresh}

/-- Behind a cursor, calls that are all modifiers are run through. -/
theorem foldlM_succeeds {first : Operation} {calls : List MethodCall}
    (cursor : first.kind.isCursor = true)
    (all : ∀ call ∈ calls, ∃ modifier content, call.Modifies registry fresh modifier content) :
    Succeeds (calls.foldlM (nextOperation registry fresh) first) := by
  induction calls generalizing first with
  | nil => exact .ok first
  | cons call calls ih =>
    obtain ⟨modifier, content, modifies⟩ := all call (.head _)
    have one : nextOperation registry fresh first call =
        .ok (first.put modifier.field (some content)) :=
      nextOperation_eq_ok.mpr ⟨cursor, modifier, content, modifies, rfl⟩
    rw [foldlM_cons_ok one]
    refine ih ?_ fun call member => all call (.tail _ member)
    rwa [Operation.kind_put]

theorem foldlM_modifies {first last : Operation} {calls : List MethodCall}
    (run : calls.foldlM (nextOperation registry fresh) first = .ok last) :
    ∀ call ∈ calls, ∃ modifier content, call.Modifies registry fresh modifier content := by
  induction calls generalizing first with
  | nil => exact nofun
  | cons call calls ih =>
    obtain ⟨middle, one, more⟩ := (bind_eq_ok _ _ _).mp run
    obtain ⟨-, modifier, content, modifies, -⟩ := nextOperation_eq_ok.mp one
    exact List.forall_mem_cons.mpr ⟨⟨modifier, content, modifies⟩, ih more⟩

/-- A field that no modifier sets is never touched. -/
theorem foldlM_other {first last : Operation} {calls : List MethodCall}
    (run : calls.foldlM (nextOperation registry fresh) first = .ok last) {f : Field}
    (other : ∀ modifier : Modifier, modifier.field ≠ f) : last.get f = first.get f := by
  have kept (before : Operation) (call : MethodCall) (after : Operation)
      (held : before.get f = first.get f)
      (next : nextOperation registry fresh before call = .ok after) :
      after.get f = first.get f := by
    obtain ⟨-, modifier, content, -, rfl⟩ := nextOperation_eq_ok.mp next
    rwa [Operation.get_put_other _ _ (other modifier).symm]
  have ended := foldlM_invariant kept rfl run
  exact ended

/-- The field of a modifier holds what the last call of that name has read, or what it held before
if there is no such call. -/
def LeavesLast (fresh : Fresh) (calls : List MethodCall) (before after : Operation)
    (modifier : Modifier) : Prop :=
  match modifier.lastCall? calls with
  | some call => ∃ content, modifier.read fresh call.arguments.head? = .ok content ∧
      after.get modifier.field = some content
  | none => after.get modifier.field = before.get modifier.field

theorem foldlM_leavesLast {first last : Operation} {calls : List MethodCall}
    (run : calls.foldlM (nextOperation registry fresh) first = .ok last) (modifier : Modifier) :
    LeavesLast fresh calls first last modifier := by
  induction calls using List.reverseRecOn generalizing last with
  | nil =>
    cases run
    rfl
  | append_singleton calls call ih =>
    rw [List.foldlM_append] at run
    obtain ⟨middle, more, one⟩ := (bind_eq_ok _ _ _).mp run
    obtain ⟨_, one, done⟩ := (bind_eq_ok _ _ _).mp one
    cases done
    obtain ⟨-, own, content, modifies, rfl⟩ := nextOperation_eq_ok.mp one
    have before := ih more
    unfold LeavesLast at before ⊢
    rw [Modifier.lastCall?_append, Modifier.lastCall?_single, modifies.named]
    by_cases same : own = modifier
    · subst same
      rw [if_pos rfl]
      exact ⟨content, modifies.read, Operation.get_put_same _ _ _⟩
    · have apart : modifier.field ≠ own.field := fun alike =>
        same (Modifier.field_injective alike).symm
      rw [if_neg fun alike => same (Modifier.name_injective alike), Option.none_or,
        Operation.get_put_other _ _ apart]
      exact before

/-- What two runs leave is the same if the last call of each name is. -/
theorem LeavesLast.get_eq {calls others : List MethodCall} {first last last' : Operation}
    {modifier : Modifier} (left : LeavesLast fresh calls first last modifier)
    (right : LeavesLast fresh others first last' modifier)
    (same : modifier.lastCall? others = modifier.lastCall? calls) :
    last'.get modifier.field = last.get modifier.field := by
  unfold LeavesLast at left right
  rw [same] at right
  cases found : modifier.lastCall? calls with
  | none =>
    rw [found] at left right
    exact right.trans left.symm
  | some call =>
    rw [found] at left right
    obtain ⟨content, read, held⟩ := left
    obtain ⟨content', read', held'⟩ := right
    rw [read, Except.ok.injEq] at read'
    rw [held', held, read']

/-- Some of the modifiers of a chain, in any order, have the same operation as all of them, if the
last one of each name is the same. -/
theorem operation_of_lastCall? {chain : CollectionChain} {calls : List MethodCall} {op : Operation}
    (done : chain.operation registry fresh = .ok op) (among : calls ⊆ chain.chained)
    (same : ∀ modifier : Modifier, modifier.lastCall? calls = modifier.lastCall? chain.chained) :
    operation registry fresh { chain with chained := calls } = .ok op := by
  obtain ⟨first, started, run⟩ := (bind_eq_ok _ _ _).mp done
  have modifies := foldlM_modifies run
  obtain ⟨last, run'⟩ : Succeeds (calls.foldlM (nextOperation registry fresh) first) := by
    cases calls with
    | nil => exact .ok first
    | cons call calls =>
      have several : chain.chained ≠ [] := List.ne_nil_of_mem (among (.head _))
      exact foldlM_succeeds (isCursor_of_foldlM several run) fun call member =>
        modifies call (among member)
  obtain ⟨kind, collection⟩ := foldlM_keeps run
  obtain ⟨kind', collection'⟩ := foldlM_keeps run'
  have alike : last = op := by
    refine Operation.eq_of_get_eq (kind'.trans kind.symm) (collection'.trans collection.symm)
      fun f => ?_
    by_cases own : ∃ modifier : Modifier, modifier.field = f
    · obtain ⟨modifier, rfl⟩ := own
      exact (foldlM_leavesLast run modifier).get_eq (foldlM_leavesLast run' modifier)
        (same modifier)
    · rw [not_exists] at own
      exact (foldlM_other run' own).trans (foldlM_other run own).symm
  refine (bind_eq_ok _ _ _).mpr ⟨first, started, ?_⟩
  rw [run', alike]

end CollectionChain

/-! Deleting and swapping -/

namespace Modifier

/-- A call in front of another of its name is no last one. -/
theorem lastCall?_delete (modifier : Modifier) {call later : MethodCall}
    (earlier : List MethodCall) {behind : List MethodCall} (member : later ∈ behind)
    (named : later.name = call.name) :
    modifier.lastCall? (earlier ++ behind) = modifier.lastCall? (earlier ++ call :: behind) := by
  rw [lastCall?_append, lastCall?_append, lastCall?_cons]
  by_cases own : call.name = modifier.name
  · obtain ⟨last, found⟩ : ∃ last, modifier.lastCall? behind = some last := by
      rw [← Option.ne_none_iff_exists', ne_eq, lastCall?_eq_none]
      exact fun none => none later member (named.trans own)
    rw [found]
    rfl
  · rw [if_neg own, Option.or_none]

/-- Two calls of different names may change places, unless one between them has the name of either
and none behind them has. -/
theorem lastCall?_swap (modifier : Modifier) {first second : MethodCall}
    (earlier : List MethodCall) {between behind : List MethodCall}
    (apart : first.name ≠ second.name)
    (overridden : ∀ call ∈ between, call.name = first.name ∨ call.name = second.name →
      ∃ later ∈ behind, later.name = call.name) :
    modifier.lastCall? (earlier ++ second :: (between ++ first :: behind)) =
      modifier.lastCall? (earlier ++ first :: (between ++ second :: behind)) := by
  simp only [lastCall?_append, lastCall?_cons]
  cases last : modifier.lastCall? behind with
  | some call => rfl
  | none =>
    have noLater := lastCall?_eq_none.mp last
    have noneBetween (name : first.name = modifier.name ∨ second.name = modifier.name) :
        modifier.lastCall? between = none := by
      refine lastCall?_eq_none.mpr fun call member own => ?_
      have either : call.name = first.name ∨ call.name = second.name :=
        name.imp (fun same => own.trans same.symm) fun same => own.trans same.symm
      obtain ⟨later, there, same⟩ := overridden call member either
      exact noLater later there (same.trans own)
    by_cases own : first.name = modifier.name
    · have other : second.name ≠ modifier.name := fun same => apart (own.trans same.symm)
      simp [own, other, noneBetween (.inl own)]
    · by_cases other : second.name = modifier.name
      · simp [own, other, noneBetween (.inr other)]
      · simp [own, other]

end Modifier

/-- The last modifier of each name counts. An operation has in the field of each modifier what the
last call of that name has read, or what the first call alone has there if there is none; everything
else is as the first call alone has it. So a modifier that a later one of its name overrides may be
left out, and two of different names may change places, unless one between them has the name of
either and none behind them has. -/
theorem CollectionChain.last_modifier_counts {registry : Registry} {fresh : Fresh}
    {chain : CollectionChain} {op : Operation}
    (done : chain.operation registry fresh = .ok op) :
    (∃ bare, operation registry fresh { chain with chained := [] } = .ok bare ∧
      op.kind = bare.kind ∧ op.collection = bare.collection ∧
      (∀ f, (∀ modifier : Modifier, modifier.field ≠ f) → op.get f = bare.get f) ∧
      ∀ modifier : Modifier, match modifier.lastCall? chain.chained with
        | some call => ∃ content, modifier.read fresh call.arguments.head? = .ok content ∧
            op.get modifier.field = some content
        | none => op.get modifier.field = bare.get modifier.field) ∧
    (∀ earlier call behind, chain.chained = earlier ++ call :: behind →
      (∃ later ∈ behind, later.name = call.name) →
      operation registry fresh { chain with chained := earlier ++ behind } = .ok op) ∧
    ∀ earlier first between second behind,
      chain.chained = earlier ++ first :: (between ++ second :: behind) →
      first.name ≠ second.name →
      (∀ call ∈ between, call.name = first.name ∨ call.name = second.name →
        ∃ later ∈ behind, later.name = call.name) →
      operation registry fresh
        { chain with chained := earlier ++ second :: (between ++ first :: behind) } = .ok op := by
  refine ⟨?_, fun earlier call behind parted overridden => ?_,
    fun earlier first between second behind parted apart overridden => ?_⟩
  · obtain ⟨bare, alone, run⟩ := operation_part (List.nil_append chain.chained).symm done
    obtain ⟨kind, collection⟩ := foldlM_keeps run
    exact ⟨bare, alone, kind, collection, fun f => foldlM_other run, foldlM_leavesLast run⟩
  · obtain ⟨later, member, named⟩ := overridden
    have among : earlier ++ behind ⊆ chain.chained := by
      rw [parted]
      grind
    refine operation_of_lastCall? done among fun modifier => ?_
    rw [parted, modifier.lastCall?_delete earlier member named]
  · have among : earlier ++ second :: (between ++ first :: behind) ⊆ chain.chained := by
      rw [parted]
      grind
    refine operation_of_lastCall? done among fun modifier => ?_
    rw [parted, modifier.lastCall?_swap earlier apart overridden]

/-! A chain on `db.users` -/

/-- The call `find({}, null, {hint: "old", maxTimeMS: 5})` on `users`, and calls chained to it. -/
def usersFind (chained : List MethodCall) : CollectionChain :=
  ⟨.member "users", ⟨"find", [.object Expr.nowhere [], .null Expr.nowhere,
    .object Expr.nowhere [.mk "hint" Expr.nowhere (.string Expr.nowhere "old"),
      .mk "maxTimeMS" Expr.nowhere (.number Expr.nowhere "5")]], Expr.nowhere⟩, chained⟩

def limitCall (lexeme : String) : MethodCall :=
  ⟨"limit", [.number Expr.nowhere lexeme], Expr.nowhere⟩

def hintCall (index : String) : MethodCall :=
  ⟨"hint", [.string Expr.nowhere index], Expr.nowhere⟩

/-- What is found on `users` under a limit, by the index `new`. -/
def usersFound (limit : Int) : Operation :=
  { kind := .find, collection := "users", filter := some [], hint := some (.name "new"),
    maxTimeMS := some 5, limit := some limit }

/-- A first limit may be left out, or stand behind the hint, where a second one follows. -/
theorem CollectionChain.last_limit_counts :
    operation Registry.builtin (Fresh.ofSeed 0 0)
        (usersFind [limitCall "1", hintCall "new", limitCall "2"]) = .ok (usersFound 2) ∧
      operation Registry.builtin (Fresh.ofSeed 0 0)
        (usersFind [hintCall "new", limitCall "2"]) = .ok (usersFound 2) ∧
      operation Registry.builtin (Fresh.ofSeed 0 0)
        (usersFind [hintCall "new", limitCall "1", limitCall "2"]) = .ok (usersFound 2) := by
  have done : operation Registry.builtin (Fresh.ofSeed 0 0)
      (usersFind [limitCall "1", hintCall "new", limitCall "2"]) = .ok (usersFound 2) := by cbv
  obtain ⟨-, deleted, swapped⟩ := last_modifier_counts done
  refine ⟨done, deleted [] (limitCall "1") _ rfl ⟨limitCall "2", by simp, rfl⟩, ?_⟩
  exact swapped [] (limitCall "1") [] (hintCall "new") [limitCall "2"] rfl (by decide) (by simp)

/-- Two modifiers of different names may not change places in every case: where the first limit
changes places with the hint behind the second limit, it becomes the last one. -/
theorem CollectionChain.swap_over_limit_changes :
    ¬∀ registry fresh chain op earlier first between second behind,
      operation registry fresh chain = .ok op →
      chain.chained = earlier ++ first :: (between ++ second :: behind) →
      first.name ≠ second.name →
      operation registry fresh
        { chain with chained := earlier ++ second :: (between ++ first :: behind) } = .ok op := by
  intro always
  have runs :
      operation Registry.builtin (Fresh.ofSeed 0 0)
          (usersFind [limitCall "1", limitCall "2", hintCall "new"]) = .ok (usersFound 2) ∧
        operation Registry.builtin (Fresh.ofSeed 0 0)
          (usersFind [hintCall "new", limitCall "2", limitCall "1"]) = .ok (usersFound 1) :=
    ⟨by cbv, by cbv⟩
  have same := always _ _ _ _ [] (limitCall "1") [limitCall "2"] (hintCall "new") [] runs.1 rfl
    (by decide)
  have limits := congrArg Operation.limit (Except.ok.inj (runs.2.symm.trans same))
  exact absurd limits (by decide)

end MongoShell
