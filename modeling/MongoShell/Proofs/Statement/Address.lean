import Mathlib
import MongoShell.Proofs.Script.Parts
import MongoShell.Proofs.Statement.Chain
import MongoShell.Proofs.Token.Excerpt

/-! The ways to address a collection: as members of `db`, by an index on it and by `getCollection`.
A chain of calls behind any of them asks for the same operation if the addresses give the same name,
and for none if they give no name. -/

namespace MongoShell

open MongoShell.Expr (nowhere)
open Outcome

/-! The trees of the three addresses, without places -/

namespace Expr

/-- Methods called one after the other, each by its name and with its arguments. -/
def chain (target : Expr) (calls : List (String × List Expr)) : Expr :=
  calls.foldl (fun e call => .call nowhere (.member nowhere e call.1) call.2) target

/-- The collection `db.n.m.…`. -/
def path (names : List String) : Expr := names.foldl (.member nowhere) (.identifier nowhere "db")

/-- The collection `db[…]`. -/
def bracketed (position : Expr) : Expr := .index nowhere (.identifier nowhere "db") position

/-- The collection `db.getCollection(…)`. -/
def accessed (arguments : List Expr) : Expr :=
  .call nowhere (.member nowhere (.identifier nowhere "db") "getCollection") arguments

end Expr

/-! The accesses that the trees consist of -/

namespace Access

/-- The accesses that a chain of calls consists of. -/
def ofCalls : List (String × List Expr) → List Access
  | [] => []
  | (name, arguments) :: calls => .member name :: .call arguments nowhere :: ofCalls calls

end Access

/-- A call of a method by name, without a place. -/
def MethodCall.named (call : String × List Expr) : MethodCall := ⟨call.1, call.2, nowhere⟩

theorem Expr.accesses?_chain (calls : List (String × List Expr)) (target : Expr)
    (gathered : List Access) :
    (target.chain calls).accesses? gathered =
      target.accesses? (Access.ofCalls calls ++ gathered) := by
  induction calls generalizing target with
  | nil => rfl
  | cons call calls ih => exact ih _

theorem Expr.accesses?_members (names : List String) (target : Expr) (gathered : List Access) :
    (names.foldl (.member nowhere) target).accesses? gathered =
      target.accesses? (names.map .member ++ gathered) := by
  induction names generalizing target with
  | nil => rfl
  | cons name names ih => exact ih _

theorem Access.calls?_ofCalls (calls : List (String × List Expr)) :
    Access.calls? (ofCalls calls) = some (calls.map MethodCall.named) := by
  induction calls with
  | nil => rfl
  | cons call calls ih => rw [ofCalls, calls?, ih]; rfl

/-- A path goes up to the first name that is called. -/
theorem Access.splitNames_ofCalls (names : List String) (call : String × List Expr)
    (calls : List (String × List Expr)) :
    splitNames (names.map .member ++ ofCalls (call :: calls)) =
      (names, ofCalls (call :: calls)) := by
  induction names with
  | nil => rfl
  | cons name names ih =>
    cases names with
    | nil => rfl
    | cons other names =>
      simp only [List.map_cons, List.cons_append] at ih ⊢
      rw [splitNames_member, ih]

/-- A chain of calls on an address. -/
def CollectionChain.on (address : CollectionAddress) (call : String × List Expr)
    (calls : List (String × List Expr)) : CollectionChain :=
  ⟨address, .named call, calls.map .named⟩

theorem CollectionChain.ofAccesses?_ofCalls (address : CollectionAddress)
    (call : String × List Expr) (calls : List (String × List Expr)) :
    ofAccesses? address (Access.ofCalls (call :: calls)) = some (on address call calls) := by
  rw [ofAccesses?, Access.calls?_ofCalls]
  rfl

theorem StatementKind.ofExpr_of_accesses {e : Expr} {accesses : List Access}
    {statement : DatabaseStatement} (root : e.accesses? [] = some ("db", accesses))
    (found : DatabaseStatement.ofAccesses? accesses = some statement) :
    StatementKind.ofExpr e = .database statement := by
  simp [ofExpr, DatabaseStatement.ofExpr?, root, found]

section

variable (call : String × List Expr) (calls : List (String × List Expr))

theorem StatementKind.ofExpr_path {names : List String} (named : names ≠ []) :
    StatementKind.ofExpr ((Expr.path names).chain (call :: calls)) =
      .database (.collection (.on (.member (".".intercalate names)) call calls)) := by
  have root : ((Expr.path names).chain (call :: calls)).accesses? [] =
      some ("db", names.map .member ++ Access.ofCalls (call :: calls)) := by
    rw [Expr.accesses?_chain, Expr.path, Expr.accesses?_members, List.append_nil]
    rfl
  refine ofExpr_of_accesses root ?_
  have split := Access.splitNames_ofCalls names call calls
  cases names with
  | nil => exact absurd rfl named
  | cons name names =>
    have noCall : ∀ arguments span tail,
        names.map Access.member ++ Access.ofCalls (call :: calls) ≠
          .call arguments span :: tail := by
      intro arguments span tail
      cases names <;> simp [Access.ofCalls]
    rw [List.map_cons, List.cons_append] at split ⊢
    rw [DatabaseStatement.ofAccesses?_path name noCall, split, CollectionChain.ofAccesses?_ofCalls]
    rfl

theorem StatementKind.ofExpr_bracketed (position : Expr) :
    StatementKind.ofExpr ((Expr.bracketed position).chain (call :: calls)) =
      .database (.collection (.on (.ofBracket position) call calls)) := by
  have root : ((Expr.bracketed position).chain (call :: calls)).accesses? [] =
      some ("db", .index position :: Access.ofCalls (call :: calls)) := by
    rw [Expr.accesses?_chain, List.append_nil]
    rfl
  refine ofExpr_of_accesses root ?_
  rw [DatabaseStatement.ofAccesses?, CollectionChain.ofAccesses?_ofCalls]
  rfl

theorem StatementKind.ofExpr_accessed (arguments : List Expr) :
    StatementKind.ofExpr ((Expr.accessed arguments).chain (call :: calls)) =
      .database (.collection (.on (.ofAccessor arguments) call calls)) := by
  have root : ((Expr.accessed arguments).chain (call :: calls)).accesses? [] =
      some ("db", .member "getCollection" :: .call arguments nowhere ::
        Access.ofCalls (call :: calls)) := by
    rw [Expr.accesses?_chain, List.append_nil]
    rfl
  refine ofExpr_of_accesses root ?_
  have behind : Access.ofCalls (call :: calls) ≠ [] := by simp [Access.ofCalls]
  simp only [DatabaseStatement.ofAccesses?, CollectionChain.ofAccesses?_ofCalls]
  exact if_pos ⟨trivial, behind⟩

end

/-! The name of the collection -/

namespace CollectionChain

/-- The collection of an operation is the one that its chain names, and it has a name. -/
theorem firstOperation_collection {registry : Registry} {fresh : Fresh} {chain : CollectionChain}
    {op : Operation} (done : chain.firstOperation registry fresh = .ok op) :
    op.collection = chain.collection.name ∧ chain.collection.name ≠ "" := by
  simp only [firstOperation, bind_eq_ok] at done
  obtain ⟨_, _, made, applied, checked⟩ := done
  split at checked
  · cases checked
  rename_i addressed
  cases checked
  cases found : Method.ofName? chain.first.name with
  | none => rw [found] at applied; cases applied
  | some method =>
    rw [found] at applied
    have called := (mapError_eq_ok _ _ _).mp applied
    obtain ⟨regular, acting, unnaming⟩ :=
      Method.ofCollection_regular method (List.mem_of_find?_eq_some found)
    obtain ⟨kind, -, collection, -⟩ := Method.call_filled regular called
    rw [if_neg unnaming] at collection
    rw [kind] at addressed
    exact ⟨collection, fun empty => addressed ⟨acting, empty⟩⟩

theorem operation_collection {registry : Registry} {fresh : Fresh} {chain : CollectionChain}
    {op : Operation} (done : chain.operation registry fresh = .ok op) :
    op.collection = chain.collection.name ∧ chain.collection.name ≠ "" := by
  obtain ⟨first, started, run⟩ := (bind_eq_ok _ _ _).mp done
  obtain ⟨collection, some⟩ := firstOperation_collection started
  exact ⟨(foldlM_keeps run).2.trans collection, some⟩

end CollectionChain

/-! Texts that write a tree -/

/-- The tokens of a text are those of a tree, and the end of the input. -/
def Writes (source : String) (tree : Expr) : Prop :=
  ∃ tokens final, scanFrom .start source.toList = .ok (tokens ++ [final]) ∧
    Grammar.Whole tokens final tree

/-- Reading all tokens of a text up to the last one tells which tree it writes. -/
theorem Writes.of_read {source : String} {tree : Expr}
    (done : ((scanFrom .start source.toList).bind Expr.read).map
      (fun (e, behind) => (e.eraseSpans, behind.length)) = .ok (tree, 1)) : Writes source tree := by
  obtain ⟨⟨e, behind⟩, read, same⟩ := (map_eq_ok _ _ _).mp done
  obtain ⟨tokens, scanned, read⟩ := (bind_eq_ok _ _ _).mp read
  obtain ⟨rfl, one⟩ := Prod.mk.inj same
  obtain ⟨before, next, tail, rfl, rfl, whole⟩ := Expr.whole_of_read read
  obtain rfl := List.length_eq_zero_iff.mp (Nat.succ.inj one)
  exact ⟨before, next, scanned, whole⟩

/-- A text that writes a tree is one statement, the one that the tree is. -/
theorem Writes.statement {source : String} {tree : Expr} (writes : Writes source tree) :
    ∃ s, Statement.ofSource source = .ok s ∧
      s.kind.eraseSpans = StatementKind.ofExpr tree := by
  obtain ⟨tokens, final, scanned, whole⟩ := writes
  have kind := endOfInput_of_scanFrom scanned
  obtain ⟨e, first, last, -, -, rfl, done⟩ := Script.ofTokens_whole source.toList whole kind
  have alone := (Script.ofSource_eq_ok source _).mpr ⟨_, scanned, done⟩
  refine ⟨.between source.toList first last (.ofExpr e), by rw [Statement.ofSource, alone], ?_⟩
  exact (StatementKind.ofExpr_eraseSpans e).symm

/-- A text is a statement that is a chain of calls on an address. -/
def WritesOn (source : String) (address : CollectionAddress) (call : String × List Expr)
    (calls : List (String × List Expr)) : Prop :=
  ∃ s chain, Statement.ofSource source = .ok s ∧ s.kind = .database (.collection chain) ∧
    chain.eraseSpans = .on address call calls

/-- A text that writes a tree which is a chain of calls. -/
theorem Writes.on {source : String} {tree : Expr} {address : CollectionAddress}
    {call : String × List Expr} {calls : List (String × List Expr)} (writes : Writes source tree)
    (same : StatementKind.ofExpr tree = .database (.collection (.on address call calls))) :
    WritesOn source address call calls := by
  obtain ⟨s, read, kind⟩ := writes.statement
  rw [same] at kind
  cases own : s.kind with
  | shell command => rw [own] at kind; cases kind
  | expression e => rw [own] at kind; cases kind
  | database statement =>
    rw [own, StatementKind.eraseSpans, StatementKind.database.injEq] at kind
    cases statement with
    | command handled call => cases kind
    | method call => cases kind
    | collection chain => exact ⟨s, chain, read, own, DatabaseStatement.collection.inj kind⟩

/-- Two texts are statements that ask for the same, whatever the registry: for one operation,
made-up values apart, or for none for the same reason. -/
def AskAlike (first second : String) : Prop :=
  ∃ s t, Statement.ofSource first = .ok s ∧ Statement.ofSource second = .ok t ∧
    ∀ registry f g,
      Matches (Operation.Alike f g) (s.operation registry f) (t.operation registry g)

/-- A text is a statement that asks, whatever the registry, for operations on one collection only.
-/
def AsksOn (source collection : String) : Prop :=
  ∃ s, Statement.ofSource source = .ok s ∧
    ∀ registry fresh op, s.operation registry fresh = .ok op → op.collection = collection

/-- A text is a statement that asks for no operation, whatever the registry. -/
def AsksNothing (source : String) : Prop :=
  ∃ s, Statement.ofSource source = .ok s ∧
    ∀ registry fresh op, s.operation registry fresh ≠ .ok op

namespace WritesOn

variable {source other : String} {address address' : CollectionAddress}
  {call : String × List Expr} {calls : List (String × List Expr)}

/-- Only the name of an address matters. -/
theorem askAlike (writes : WritesOn source address call calls)
    (writes' : WritesOn other address' call calls) (named : address.name = address'.name) :
    AskAlike source other := by
  obtain ⟨s, chain, read, kind, same⟩ := writes
  obtain ⟨t, chain', read', kind', same'⟩ := writes'
  obtain ⟨collection, first, chained⟩ := CollectionChain.mk.inj same
  obtain ⟨collection', first', chained'⟩ := CollectionChain.mk.inj same'
  refine ⟨s, t, read, read', fun registry f g => ?_⟩
  rw [Statement.operation, kind, Statement.operation, kind']
  refine CollectionChain.operation_alike registry ⟨?_, ?_, ?_⟩
  · rw [collection, collection', named]
  · rw [first, first']
  · rw [chained, chained']

theorem asksOn (writes : WritesOn source address call calls) : AsksOn source address.name := by
  obtain ⟨s, chain, read, kind, same⟩ := writes
  obtain ⟨collection, -, -⟩ := CollectionChain.mk.inj same
  refine ⟨s, read, fun registry fresh op done => ?_⟩
  rw [Statement.operation, kind] at done
  rw [(CollectionChain.operation_collection done).1, collection]

theorem asksNothing (writes : WritesOn source address call calls) (nameless : address.name = "") :
    AsksNothing source := by
  obtain ⟨s, chain, read, kind, same⟩ := writes
  obtain ⟨collection, -, -⟩ := CollectionChain.mk.inj same
  refine ⟨s, read, fun registry fresh op done => ?_⟩
  rw [Statement.operation, kind] at done
  exact (CollectionChain.operation_collection done).2 (by rw [collection, nameless])

end WritesOn

/-- The three ways to address a collection are interchangeable. In front of any chain of calls, a
path of names, an index with the names in one string and `getCollection` with that string ask for
the same, on the collection of that name; for any other string the last two ask for the same; and an
index or a `getCollection` with anything but one string literal asks for nothing. -/
theorem Statement.addresses_interchangeable {calls : List (String × List Expr)}
    (called : calls ≠ []) :
    (∀ names path bracket accessor, names ≠ [] →
      Writes path ((Expr.path names).chain calls) →
      Writes bracket ((Expr.bracketed (.string nowhere (".".intercalate names))).chain calls) →
      Writes accessor ((Expr.accessed [.string nowhere (".".intercalate names)]).chain calls) →
      AskAlike path bracket ∧ AskAlike path accessor ∧ AsksOn path (".".intercalate names)) ∧
    (∀ name bracket accessor,
      Writes bracket ((Expr.bracketed (.string nowhere name)).chain calls) →
      Writes accessor ((Expr.accessed [.string nowhere name]).chain calls) →
      AskAlike bracket accessor) ∧
    (∀ position source, position.string? = none →
      Writes source ((Expr.bracketed position).chain calls) → AsksNothing source) ∧
    (∀ arguments source, (∀ e, arguments = [e] → e.string? = none) →
      Writes source ((Expr.accessed arguments).chain calls) → AsksNothing source) := by
  cases calls with
  | nil => exact absurd rfl called
  | cons call calls =>
    refine ⟨fun names path bracket accessor named first second third => ?_,
      fun name bracket accessor first second => ?_, fun position source other writes => ?_,
      fun arguments source other writes => ?_⟩
    · have first := first.on (StatementKind.ofExpr_path call calls named)
      have second := second.on (StatementKind.ofExpr_bracketed call calls _)
      have third := third.on (StatementKind.ofExpr_accessed call calls _)
      exact ⟨first.askAlike second rfl, first.askAlike third rfl, first.asksOn⟩
    · have first := first.on (StatementKind.ofExpr_bracketed call calls _)
      have second := second.on (StatementKind.ofExpr_accessed call calls _)
      exact first.askAlike second rfl
    · have writes := writes.on (StatementKind.ofExpr_bracketed call calls position)
      refine writes.asksNothing ?_
      cases position <;> first | rfl | cases other
    · have writes := writes.on (StatementKind.ofExpr_accessed call calls arguments)
      refine writes.asksNothing ?_
      match arguments with
      | [] => rfl
      | [e] =>
        have other := other e rfl
        cases e <;> first | rfl | cases other
      | _ :: _ :: _ => simp only [CollectionAddress.ofAccessor, CollectionAddress.name]

/-- A path of two names, and an index on a value that is no string. -/
theorem Statement.addresses_of_profile :
    AskAlike "db.system.profile.find().limit(5)" "db[\"system.profile\"].find().limit(5)" ∧
      AskAlike "db.system.profile.find().limit(5)"
        "db.getCollection('system.profile').find().limit(5)" ∧
      AsksOn "db.system.profile.find().limit(5)" "system.profile" ∧
      AskAlike "db[''].find().limit(5)" "db.getCollection('').find().limit(5)" ∧
      AsksNothing "db[name].find().limit(5)" ∧
      AsksNothing "db.getCollection().find().limit(5)" := by
  let calls : List (String × List Expr) := [("find", []), ("limit", [.number nowhere "5"])]
  have called : calls ≠ [] := List.cons_ne_nil _ _
  obtain ⟨named, same, indexed, accessed⟩ := Statement.addresses_interchangeable called
  obtain ⟨bracket, accessor, on⟩ := named ["system", "profile"]
    "db.system.profile.find().limit(5)" "db[\"system.profile\"].find().limit(5)"
    "db.getCollection('system.profile').find().limit(5)" (List.cons_ne_nil _ _)
    (.of_read (by cbv)) (.of_read (by cbv)) (.of_read (by cbv))
  have nameless := same "" "db[''].find().limit(5)" "db.getCollection('').find().limit(5)"
    (.of_read (by cbv)) (.of_read (by cbv))
  have unnamed := indexed (.identifier nowhere "name") "db[name].find().limit(5)" rfl
    (.of_read (by cbv))
  have missing := accessed [] "db.getCollection().find().limit(5)" (by simp) (.of_read (by cbv))
  exact ⟨bracket, accessor, on, nameless, unnamed, missing⟩

end MongoShell
