import MongoShell.Proofs.Statement.Rewriting

/-! Places in a source do not matter to what statement an expression is: finding the database calls
among expressions commutes with leaving the places out. -/

namespace MongoShell

namespace Expr

theorem eraseAll_eq_map (arguments : List Expr) :
    eraseAll arguments = arguments.map eraseSpans := by
  induction arguments with
  | nil => rfl
  | cons e arguments ih => rw [eraseAll, ih, List.map_cons]

end Expr

/-- The access without its places. -/
def Access.eraseSpans : Access → Access
  | member name => member name
  | index position => index position.eraseSpans
  | call arguments _ => call (Expr.eraseAll arguments) Expr.nowhere

/-- The chain without its places. -/
def CollectionChain.eraseSpans (chain : CollectionChain) : CollectionChain :=
  ⟨chain.collection, chain.first.eraseSpans, chain.chained.map MethodCall.eraseSpans⟩

/-- The statement without its places. -/
def DatabaseStatement.eraseSpans : DatabaseStatement → DatabaseStatement
  | command handled call => command handled call.eraseSpans
  | method call => method call.eraseSpans
  | collection chain => collection chain.eraseSpans

/-- What a statement is, without its places. -/
def StatementKind.eraseSpans : StatementKind → StatementKind
  | shell command => shell command
  | database statement => database statement.eraseSpans
  | expression e => expression e.eraseSpans

theorem Expr.accesses?_eraseSpans (e : Expr) (gathered : List Access) :
    e.eraseSpans.accesses? (gathered.map Access.eraseSpans) =
      (e.accesses? gathered).map fun (root, accesses) =>
        (root, accesses.map Access.eraseSpans) := by
  fun_induction Expr.accesses? gathered e with
  | case1 gathered span target name ih => exact ih
  | case2 gathered span target position ih => exact ih
  | case3 gathered span callee arguments ih => exact ih
  | case4 => rfl
  | case5 e => cases e <;> simp_all [Expr.eraseSpans, Expr.accesses?]

/-! Leaving places out is a rewriting that makes each place nowhere -/

theorem Access.eraseSpans_eq :
    Access.eraseSpans = Access.rewrite Expr.eraseSpans fun _ => Expr.nowhere := by
  funext access
  cases access <;> simp [eraseSpans, rewrite, Expr.eraseAll_eq_map]

theorem MethodCall.eraseSpans_eq :
    MethodCall.eraseSpans = MethodCall.rewrite Expr.eraseSpans fun _ => Expr.nowhere := by
  funext call
  simp [eraseSpans, rewrite, Expr.eraseAll_eq_map]

theorem DatabaseStatement.eraseSpans_eq :
    DatabaseStatement.eraseSpans =
      DatabaseStatement.rewrite Expr.eraseSpans fun _ => Expr.nowhere := by
  funext statement
  cases statement <;>
    simp [eraseSpans, rewrite, CollectionChain.eraseSpans, CollectionChain.rewrite,
      MethodCall.eraseSpans_eq]

theorem DatabaseStatement.ofExpr?_eraseSpans (e : Expr) :
    DatabaseStatement.ofExpr? e.eraseSpans =
      (DatabaseStatement.ofExpr? e).map DatabaseStatement.eraseSpans := by
  have accesses := e.accesses?_eraseSpans []
  rw [List.map_nil] at accesses
  have text (e : Expr) : e.eraseSpans.string? = e.string? := by cases e <;> rfl
  rw [ofExpr?, accesses, ofExpr?]
  cases e.accesses? [] with
  | none => rfl
  | some found =>
    obtain ⟨root, accesses⟩ := found
    by_cases handle : root = "db"
    · simp [handle, Access.eraseSpans_eq, eraseSpans_eq, ofAccesses?_rewrite text]
    · simp [handle]

/-- An expression is the same statement, places apart, as the expression without its places. -/
theorem StatementKind.ofExpr_eraseSpans (e : Expr) :
    StatementKind.ofExpr e.eraseSpans = (StatementKind.ofExpr e).eraseSpans := by
  rw [ofExpr, DatabaseStatement.ofExpr?_eraseSpans, ofExpr]
  cases DatabaseStatement.ofExpr? e <;> rfl

theorem StatementKind.ofExpr_congr {e d : Expr} (same : e.eraseSpans = d.eraseSpans) :
    (StatementKind.ofExpr e).eraseSpans = (StatementKind.ofExpr d).eraseSpans := by
  rw [← StatementKind.ofExpr_eraseSpans, same, StatementKind.ofExpr_eraseSpans]

end MongoShell
