import Mathlib
import MongoShell.Proofs.Execution.Acceptance

/-! A row cap against what a server makes of the limit that is sent. A server takes a limit of zero,
like none at all, as leave to return every row, and a negative limit as its absolute value. The
lesser of cap and limit is therefore a ceiling only for caps above zero and limits not below the
negated cap; a cursor's limit may lie below it, the limit of a count may not. -/

namespace MongoShell

open Outcome

/-- The most rows that a server returns under a limit, where there is a most. -/
def serverCeiling? : Option Int → Option Nat
  | none => none
  | some limit => if limit = 0 then none else some limit.natAbs

/-- Whether a server returns at most so many rows under a limit. -/
def AdmitsAtMost (cap : Int) (limit : Option Int) : Prop :=
  ∃ rows, serverCeiling? limit = some rows ∧ (rows : Int) ≤ cap

theorem admitsAtMost_some_iff (cap limit : Int) :
    AdmitsAtMost cap (some limit) ↔ limit ≠ 0 ∧ -cap ≤ limit ∧ limit ≤ cap := by
  unfold AdmitsAtMost serverCeiling?
  by_cases zero : limit = 0
  · simp [zero]
  · simp only [if_neg zero, Option.some.injEq, exists_eq_left']
    omega

/-- Where the lesser of a limit and a cap keeps the server to the cap. -/
theorem effectiveLimit_admits_iff (limit : Option Int) {cap : Int} (nonneg : 0 ≤ cap) :
    AdmitsAtMost cap (effectiveLimit limit (some cap)) ↔ 0 < cap ∧ -cap ≤ limit.getD 0 := by
  by_cases bounded : limit.getD 0 = 0
  · have sent : effectiveLimit limit (some cap) = some cap := by
      cases limit with
      | none => rfl
      | some n =>
        have zero : n = 0 := bounded
        subst zero
        rfl
    rw [sent, admitsAtMost_some_iff, bounded]
    omega
  · cases limit with
    | none => exact absurd rfl bounded
    | some n =>
      have sent : effectiveLimit (some n) (some cap) = some (min n cap) := by
        have kept : (some n).filter (· ≠ 0) = some n := by
          simpa [Option.filter] using bounded
        unfold effectiveLimit
        rw [kept]
      rw [sent, admitsAtMost_some_iff, Option.getD_some]
      rw [Option.getD_some] at bounded
      omega

/-- The limit that a request carries, of requests that carry one under a cap. -/
def Request.limit? : Request → Option (Option Int)
  | find request => some request.limit
  | countDocuments request => some request.limit
  | _ => none

theorem Operation.request_limit {op : Operation} {cap : Option Int} {request : Request}
    (counted : op.kind = .find ∨ op.kind = .countDocuments)
    (made : op.request cap = .ok request) :
    request.limit? = some (effectiveLimit op.limit cap) := by
  rcases counted with kind | kind
  · simp only [Operation.request, kind, map_eq_ok, findRequest, bind_eq_ok, Except.ok.injEq] at made
    obtain ⟨_, ⟨collection, _, time, _, rfl⟩, rfl⟩ := made
    rfl
  · simp only [Operation.request, kind, map_eq_ok, countRequest, bind_eq_ok, Except.ok.injEq]
      at made
    obtain ⟨_, ⟨collection, _, time, _, rfl⟩, rfl⟩ := made
    rfl

/-- An execution under a cap sends a limit that keeps the server to the cap exactly if the cap is
above zero and the statement's own limit is not below the negated cap. Counts take no negative
limit, so for them the first condition is all. -/
theorem Settings.execute_keeps_cap_iff {δ ω : Type} {settings : Settings} {client : Client δ ω}
    {registry : Registry} {fresh : Fresh} {statement : Statement} {op : Operation}
    {rowCap : Option Int} {cap : Int}
    (translated : statement.operation registry fresh = .ok op)
    (counted : op.kind = .find ∨ op.kind = .countDocuments)
    (capped : rowCap.or settings.rowCap = some cap) (nonneg : 0 ≤ cap) :
    ∃ request limit, (settings.execute client op statement.text rowCap).sent = some request ∧
      request.limit? = some limit ∧
      (AdmitsAtMost cap limit ↔ 0 < cap ∧ -cap ≤ op.limit.getD 0) ∧
      (op.kind = .countDocuments → (AdmitsAtMost cap limit ↔ 0 < cap)) := by
  have wellFormed := Statement.operation_wellFormed translated
  obtain ⟨request, made⟩ := wellFormed.request_succeeds (some cap)
  have admits := effectiveLimit_admits_iff op.limit nonneg
  refine ⟨request, effectiveLimit op.limit (some cap), ?_, Operation.request_limit counted made,
    admits, fun counting => ?_⟩
  · rw [execute_sent (capped ▸ made)]
  · have ownLimit : 0 ≤ op.limit.getD 0 := by
      cases held : op.limit with
      | none => exact Int.le_refl 0
      | some n =>
        rcases wellFormed.valid .limit n held with ⟨-, cursor⟩ | valid
        · rw [counting] at cursor
          cases cursor
        · exact valid
    rw [admits]
    omega

/-- The statement `db.users.find().limit(n)`, for a number as it is written. -/
def limitedFind (lexeme : String) : Statement :=
  ⟨.database (.collection ⟨.member "users", ⟨"find", [], Expr.nowhere⟩,
    [⟨"limit", [.number Expr.nowhere lexeme], Expr.nowhere⟩]⟩),
    "db.users.find().limit(" ++ lexeme ++ ")", Expr.nowhere⟩

theorem execute_keeps_cap_iff_at_five :
    ∃ request limit, (Settings.execute { rowCap := some 5 }
        (fun _ => ⟨0, .error (.client "closed")⟩ : Client Document Value)
        { kind := .find, collection := "users", limit := some (-5) }
        "db.users.find().limit(-5)" none).sent = some request ∧
      request.limit? = some limit ∧ (AdmitsAtMost 5 limit ↔ (0 : Int) < 5 ∧ (-5 : Int) ≤ -5) ∧
      (OperationKind.find = .countDocuments → (AdmitsAtMost 5 limit ↔ (0 : Int) < 5)) := by
  have translated : (limitedFind "-5").operation Registry.builtin (Fresh.ofSeed 0 0) =
      .ok { kind := .find, collection := "users", limit := some (-5) } := by cbv
  exact Settings.execute_keeps_cap_iff translated (.inl rfl) rfl (by decide)

/-- A cursor's limit below the negated cap passes the cap: under a cap of five, ten rows are asked
for. -/
theorem negative_limit_passes_cap :
    ∃ op request, Operation.ofSource (Fresh.ofSeed 0 0) "db.users.find().limit(-10)" = .ok op ∧
      op.request (some 5) = .ok request ∧ request.limit? = some (some (-10)) ∧
      serverCeiling? (some (-10)) = some 10 ∧ ¬AdmitsAtMost 5 (some (-10)) := by
  have translated : Operation.ofSource (Fresh.ofSeed 0 0) "db.users.find().limit(-10)" =
      .ok { kind := .find, collection := "users", limit := some (-10) } := by cbv
  refine ⟨_, _, translated, rfl, rfl, rfl, ?_⟩
  rw [admitsAtMost_some_iff]
  omega

end MongoShell
