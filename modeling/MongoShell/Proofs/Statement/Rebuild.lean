import MongoShell.Proofs.Expr.Names
import MongoShell.Proofs.Expr.Words
import MongoShell.Proofs.Statement.Address

/-! Nothing of a statement is left out. From a command, or from a chain of calls on a collection
that has a name, the expression that was read can be built again, with every member, index and call;
a database statement from which it cannot asks for no operation. -/

namespace MongoShell

open MongoShell.Expr (nowhere)
open Grammar
open Outcome

/-! Expressions from statements -/

/-- The collection as it is addressed, if the address gives its name. The names of a path are parted
by points. -/
def CollectionAddress.expr? : CollectionAddress → Option Expr
  | member name => some (Expr.path ((name.toList.splitOn '.').map String.ofList))
  | bracket name => some (Expr.bracketed (.string nowhere name))
  | accessor name => some (Expr.accessed [.string nowhere name])
  | unsupported => none

/-- The name of a call and its arguments without their places. -/
def MethodCall.parts (call : MethodCall) : String × List Expr :=
  (call.name, Expr.eraseAll call.arguments)

/-- The expression that a database statement stands for, without its places: the address and then
each call. There is none where the address gives no name, and where accesses on the result of a
method are not kept. -/
def DatabaseStatement.expr? : DatabaseStatement → Option Expr
  | command handled call =>
    some (Expr.chain (.identifier nowhere "db") [(handled.name, Expr.eraseAll call.arguments)])
  | method _ => none
  | collection chain => chain.collection.expr?.map (·.chain (chain.calls.map MethodCall.parts))

/-- A database statement of a form that does not keep all of what it is read from. -/
inductive DatabaseStatement.Partial : DatabaseStatement → Prop
  | method (call : MethodCall) : Partial (.method call)
  | address {chain : CollectionChain} (nameless : chain.collection = .unsupported) :
      Partial (.collection chain)

/-! Expressions from accesses -/

namespace Access

/-- A value with one access applied to it, without places. -/
def apply (target : Expr) : Access → Expr
  | member name => .member nowhere target name
  | index position => .index nowhere target position.eraseSpans
  | call arguments _ => .call nowhere target (Expr.eraseAll arguments)

/-- The expression that accesses on the database handle make. -/
def onDatabase (accesses : List Access) : Expr :=
  accesses.foldl apply (.identifier nowhere "db")

theorem foldl_apply_members (names : List String) (target : Expr) :
    (names.map member).foldl apply target = names.foldl (.member nowhere) target := by
  rw [List.foldl_map]
  rfl

theorem foldl_apply_calls {accesses : List Access} {calls : List MethodCall}
    (found : calls? accesses = some calls) (target : Expr) :
    accesses.foldl apply target = target.chain (calls.map MethodCall.parts) := by
  fun_induction calls? accesses generalizing target calls with
  | case1 =>
    cases found
    rfl
  | case2 name arguments span rest ih =>
    obtain ⟨others, behind, rfl⟩ := Option.map_eq_some_iff.mp found
    exact ih behind _
  | case3 => cases found

/-- Splitting the names off loses nothing. -/
theorem splitNames_append :
    (accesses : List Access) →
      (splitNames accesses).1.map member ++ (splitNames accesses).2 = accesses
  | [] => rfl
  | [.member _] => rfl
  | .member _ :: .call .. :: _ => rfl
  | .member name :: .member other :: rest => by
    have behind := splitNames_append (.member other :: rest)
    rw [splitNames_member, List.map_cons, List.cons_append, behind]
  | .member _ :: .index _ :: _ => rfl
  | .index _ :: _ => rfl
  | .call .. :: _ => rfl

/-- A name that is not called is split off. -/
theorem splitNames_ne_nil (name : String) {rest : List Access}
    (noCall : ∀ arguments span tail, rest ≠ .call arguments span :: tail) :
    (splitNames (.member name :: rest)).1 ≠ [] := by
  match rest with
  | [] => exact List.cons_ne_nil _ _
  | .member _ :: _ => exact List.cons_ne_nil _ _
  | .index _ :: _ => exact List.cons_ne_nil _ _
  | .call arguments span :: tail => exact absurd rfl (noCall arguments span tail)

end Access

/-- The accesses of an expression, applied again to its root, are the expression. -/
theorem Expr.foldl_apply_accesses {e : Expr} {gathered accesses : List Access} {root : String}
    (found : e.accesses? gathered = some (root, accesses)) :
    accesses.foldl Access.apply (.identifier nowhere root) =
      gathered.foldl Access.apply e.eraseSpans := by
  fun_induction Expr.accesses? gathered e with
  | case1 gathered span target name ih => exact ih found
  | case2 gathered span target position ih => exact ih found
  | case3 gathered span callee arguments ih => exact ih found
  | case4 gathered span name =>
    cases found
    rfl
  | case5 => cases found

/-! Each form of a statement -/

/-- A path that is joined from names without points is parted into these names. -/
theorem path_parts {names : List String} (named : names ≠ [])
    (plain : ∀ name ∈ names, '.' ∉ name.toList) :
    ((".".intercalate names).toList.splitOn '.').map String.ofList = names := by
  have again : (names.map String.toList).map String.ofList = names := by simp
  have texts : names.map String.toList ≠ [] := by simpa using named
  have pointless : ∀ text ∈ names.map String.toList, '.' ∉ text := by simpa using plain
  have point : ".".toList = ['.'] := rfl
  rw [String.toList_intercalate, point, List.splitOn_intercalate '.' pointless texts, again]

theorem CollectionChain.ofAccesses?_eq_some {collection : CollectionAddress}
    {accesses : List Access} {chain : CollectionChain}
    (found : ofAccesses? collection accesses = some chain) :
    chain.collection = collection ∧ Access.calls? accesses = some chain.calls := by
  unfold ofAccesses? at found
  split at found
  · rename_i calls
    cases found
    exact ⟨rfl, calls⟩
  · cases found

namespace DatabaseStatement

/-- A chain is rebuilt from accesses of which the first ones address its collection. -/
theorem expr?_collection {collection : CollectionAddress} (address : List Access)
    {calls : List Access} {statement : DatabaseStatement}
    (found : (CollectionChain.ofAccesses? collection calls).map DatabaseStatement.collection =
      some statement)
    (rebuilt : collection ≠ .unsupported → collection.expr? = some (Access.onDatabase address))
    (whole : ¬statement.Partial) :
    statement.expr? = some (Access.onDatabase (address ++ calls)) := by
  obtain ⟨chain, made, rfl⟩ := Option.map_eq_some_iff.mp found
  obtain ⟨rfl, calls⟩ := CollectionChain.ofAccesses?_eq_some made
  have target := rebuilt fun nameless => whole (.address nameless)
  rw [expr?, target, Option.map_some, Access.onDatabase, Access.onDatabase, List.foldl_append,
    Access.foldl_apply_calls calls]

theorem expr?_bracket {position : Expr}
    (addressed : CollectionAddress.ofBracket position ≠ .unsupported) :
    (CollectionAddress.ofBracket position).expr? =
      some (Access.onDatabase [.index position]) := by
  cases position <;> first | rfl | exact absurd rfl addressed

theorem expr?_accessor {arguments : List Expr} (span : Span)
    (addressed : CollectionAddress.ofAccessor arguments ≠ .unsupported) :
    (CollectionAddress.ofAccessor arguments).expr? =
      some (Access.onDatabase [.member "getCollection", .call arguments span]) := by
  match arguments with
  | [] => exact absurd rfl addressed
  | [e] => cases e <;> first | rfl | exact absurd rfl addressed
  | e :: _ :: _ => cases e <;> exact absurd rfl addressed

theorem expr?_path {names : List String} (named : names ≠ [])
    (plain : ∀ name ∈ names, '.' ∉ name.toList) :
    (CollectionAddress.member (".".intercalate names)).expr? =
      some (Access.onDatabase (names.map .member)) := by
  rw [CollectionAddress.expr?, path_parts named plain, Access.onDatabase,
    Access.foldl_apply_members, Expr.path]

/-- A statement that keeps everything is rebuilt as the accesses that it is read from. -/
theorem expr?_of_accesses {accesses : List Access} {statement : DatabaseStatement}
    (found : ofAccesses? accesses = some statement)
    (plain : ∀ name, Access.member name ∈ accesses → '.' ∉ name.toList)
    (whole : ¬statement.Partial) : statement.expr? = some (Access.onDatabase accesses) := by
  -- Three shapes of accesses start with a name that is not called, and all are read as a path.
  have path (name : String) {rest : List Access}
      (noCall : ∀ arguments span tail, rest ≠ .call arguments span :: tail)
      (found : ofAccesses? (.member name :: rest) = some statement)
      (plain : ∀ other, Access.member other ∈ .member name :: rest → '.' ∉ other.toList) :
      statement.expr? = some (Access.onDatabase (.member name :: rest)) := by
    have parts := Access.splitNames_append (.member name :: rest)
    rw [ofAccesses?_path name noCall] at found
    rw [← parts]
    refine expr?_collection _ found (fun _ => ?_) whole
    refine expr?_path (Access.splitNames_ne_nil name noCall) fun other member => ?_
    refine plain other ?_
    rw [← parts]
    exact List.mem_append_left _ (List.mem_map_of_mem member)
  match accesses with
  | [] => cases found
  | .call .. :: _ => cases found
  | .index position :: rest =>
    exact expr?_collection [.index position] found expr?_bracket whole
  | [.member name] => exact path name (by simp) found plain
  | .member name :: .member _ :: _ => exact path name (by simp) found plain
  | .member name :: .index _ :: _ => exact path name (by simp) found plain
  | .member name :: .call arguments span :: rest =>
    simp only [ofAccesses?] at found
    split at found
    · rename_i accessor
      obtain ⟨rfl, -⟩ := accessor
      exact expr?_collection [.member "getCollection", .call arguments span] found
        (expr?_accessor span) whole
    split at found
    · rename_i handled named _
      cases found
      have same : handled.name = name := by simpa using List.find?_some named
      rw [expr?, same]
      rfl
    · cases found
    · cases found
      exact absurd (.method _) whole

theorem expr?_of_ofExpr? {e : Expr} {statement : DatabaseStatement}
    (found : ofExpr? e = some statement)
    (plain : ∀ root accesses name, e.accesses? [] = some (root, accesses) →
      Access.member name ∈ accesses → '.' ∉ name.toList)
    (whole : ¬statement.Partial) : statement.expr? = some e.eraseSpans := by
  unfold ofExpr? at found
  split at found
  · rename_i root accesses applied
    split at found
    · rename_i handle
      rw [expr?_of_accesses found (fun name => plain root accesses name applied) whole,
        Access.onDatabase, ← handle, Expr.foldl_apply_accesses applied]
      rfl
    · cases found
  · cases found

/-- A statement that does not keep everything asks for nothing. -/
theorem Partial.refused {statement : DatabaseStatement} (incomplete : statement.Partial)
    (registry : Registry) (fresh : Fresh) :
    ∃ error, statement.operation registry fresh = .error error := by
  cases done : statement.operation registry fresh with
  | error error => exact ⟨error, rfl⟩
  | ok op =>
    cases incomplete with
    | method call =>
      obtain ⟨_, -, refused⟩ := (bind_eq_ok _ _ _).mp done
      cases refused
    | address nameless =>
      have named := (CollectionChain.operation_collection done).2
      rw [nameless] at named
      exact absurd rfl named

end DatabaseStatement

/-! Statements of a source -/

/-- An expression is derived, its places apart, by some of the tokens of a source. -/
def Expr.StandsIn (e : Expr) (source : String) : Prop :=
  ∃ before own next behind,
    scanFrom .start source.toList = .ok (before ++ (own ++ next :: behind)) ∧
      Whole own next e.eraseSpans

/-- The names that an expression of a source accesses have no point in them. -/
theorem Expr.StandsIn.plain {e : Expr} {source root name : String} {accesses : List Access}
    (stands : e.StandsIn source) (found : e.accesses? [] = some (root, accesses))
    (member : Access.member name ∈ accesses) : '.' ∉ name.toList := by
  obtain ⟨before, own, next, behind, scanned, whole⟩ := stands
  have erased := e.accesses?_eraseSpans []
  rw [found] at erased
  have kept : Access.member name ∈ accesses.map Access.eraseSpans :=
    List.mem_map_of_mem (f := Access.eraseSpans) member
  rcases whole.expression.member_word erased kept with none | ⟨t, inside, word, rfl⟩
  · cases none
  · have parts := identifier_of_scanFrom scanned (by simp [inside]) word
    intro point
    cases parts '.' point

/-- The text of an expression statement writes the expression. -/
theorem Script.writes_excerpt {source : String} {before own behind : List Token}
    {next first last : Token} {tree : Expr}
    (scanned : scanFrom .start source.toList = .ok (before ++ (own ++ next :: behind)))
    (whole : Whole own next tree) (head : own.head? = some first)
    (ends : own.getLast? = some last) :
    Writes (String.ofList ((first.span.through last.span).slice source.toList)) tree := by
  obtain ⟨moved, final, -, -, alone, kind, same, -⟩ := scan_excerpt scanned (by simp) head ends
  refine ⟨moved, final, ?_, whole.ofWords same (by simp [kind])⟩
  rw [String.toList_ofList]
  exact alone

/-- No part of a statement is left out. A database statement that an expression of a source makes
has, in the order of the source, every member, index and call of the expression, so that it can be
rebuilt from the statement; a statement of a form that does not keep all of them is refused,
whatever the registry is. So a statement that asks for an operation is a shell command, or its text
writes the expression that is rebuilt from it. -/
theorem Script.leaves_nothing_out (source : String) :
    (∀ e statement, e.StandsIn source → DatabaseStatement.ofExpr? e = some statement →
      (¬statement.Partial → statement.expr? = some e.eraseSpans) ∧
      (statement.Partial → ∀ registry fresh, ∃ error,
        statement.operation registry fresh = .error error)) ∧
    (∀ statements s registry fresh op, Script.ofSource source = .ok statements → s ∈ statements →
      s.operation registry fresh = .ok op →
      (∃ command, s.kind = .shell command) ∨
        ∃ statement tree, s.kind = .database statement ∧ statement.expr? = some tree ∧
          Writes s.text tree) := by
  have kept (e : Expr) (statement : DatabaseStatement) (stands : e.StandsIn source)
      (found : DatabaseStatement.ofExpr? e = some statement) (whole : ¬statement.Partial) :
      statement.expr? = some e.eraseSpans :=
    DatabaseStatement.expr?_of_ofExpr? found (fun _ _ _ => stands.plain) whole
  refine ⟨fun e statement stands found => ⟨kept e statement stands found, fun incomplete =>
    incomplete.refused⟩, fun statements s registry fresh op read member done => ?_⟩
  obtain ⟨tokens, scanned, read⟩ := (Script.ofSource_eq_ok source statements).mp read
  cases Script.stands_of_ofTokens read member with
  | command before behind parted command => exact .inl ⟨_, rfl⟩
  | @expression before behind own next first last e parted whole head ends =>
    subst parted
    cases found : DatabaseStatement.ofExpr? e with
    | none =>
      simp [Statement.operation, Statement.between, StatementKind.ofExpr, found] at done
    | some statement =>
      have kind : StatementKind.ofExpr e = .database statement := by
        rw [StatementKind.ofExpr, found]
      have asked : statement.operation registry fresh = .ok op := by
        simpa [Statement.operation, Statement.between, kind] using done
      have complete : ¬statement.Partial := by
        intro incomplete
        obtain ⟨error, refused⟩ := incomplete.refused registry fresh
        rw [asked] at refused
        cases refused
      refine .inr ⟨statement, e.eraseSpans, kind, ?_, writes_excerpt scanned whole head ends⟩
      exact kept e statement ⟨before, own, next, behind, scanned, whole⟩ found complete

/-- The source writes the names of a path with a blank and a comment between them. -/
example : (Statement.ofSource "db . a /**/ .b.find((2)).limit(1,)").map
    (fun s => match s.kind with | .database statement => statement.expr? | _ => none) =
      .ok (some ((Expr.path ["a", "b"]).chain
        [("find", [.number nowhere "2"]), ("limit", [.number nowhere "1"])])) := by cbv

end MongoShell
