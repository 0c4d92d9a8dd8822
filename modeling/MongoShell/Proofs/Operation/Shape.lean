import Mathlib
import MongoShell.Proofs.Operation.WellFormed

/-! The shape of an operation, field by field: what well-formedness by tables says of the fields
that callers read. -/

namespace MongoShell

namespace Operation

/-- A field that is there is one of its kind. -/
theorem WellFormed.mem_fields {op : Operation} (wellFormed : op.WellFormed) {f : Field}
    (present : (op.get f).isSome = true) : f ∈ op.kind.fields := by
  by_contra foreign
  rw [wellFormed.within f foreign] at present
  cases present

/-- What a field holds is valid, unless it is the limit of a cursor. -/
theorem WellFormed.valid_unless_limit {op : Operation} (wellFormed : op.WellFormed) {f : Field}
    {x : f.Content} (held : op.get f = some x)
    (other : ¬(f = .limit ∧ op.kind.isCursor = true)) : f.Valid x :=
  (wellFormed.valid f x held).resolve_left other

/-- A list or text that may not be empty is not. -/
theorem WellFormed.get_ne_some {op : Operation} (wellFormed : op.WellFormed) {f : Field}
    {empty : f.Content} (refused : ¬f.Valid empty) (other : f ≠ .limit) : op.get f ≠ some empty :=
  fun held => refused (wellFormed.valid_unless_limit held fun limit => other limit.1)

end Operation

/-- Every operation that a statement asks for has the shape of its kind, whatever the registry: the
kind is known; what acts on a collection names it; the fields set are those of the kind, with all
that it requires among them; nothing that has to hold something is empty; updates have operators
only and replacements none; numbers are not negative, the limit of a cursor apart; and a capped
collection has a size. -/
theorem Statement.operation_has_shape {registry : Registry} {fresh : Fresh} {statement : Statement}
    {op : Operation} (asked : statement.operation registry fresh = .ok op) :
    op.kind ≠ .unknown ∧
      (op.kind.isCollectionScoped = true ∨ op.kind = .createCollection → op.collection ≠ "") ∧
      (∀ f, (op.get f).isSome = true → f ∈ op.kind.fields) ∧
      (∀ f ∈ op.kind.required, (op.get f).isSome = true) ∧
      (op.documents ≠ some [] ∧ op.indexKeys ≠ some [] ∧ op.distinctField ≠ some "" ∧
        op.newName ≠ some "") ∧
      (∀ operators, op.update = some (.document operators) →
        operators ≠ [] ∧ ∀ key ∈ Document.keys operators, isOperatorKey key = true) ∧
      (∀ document, op.replacement = some document →
        ∀ key ∈ Document.keys document, isOperatorKey key = false) ∧
      (∀ n, op.skip = some n ∨ op.maxTimeMS = some n ∨ op.expireAfterSeconds = some n ∨
        op.size = some n ∨ op.maxDocuments = some n ∨
        (op.kind = .countDocuments ∧ op.limit = some n) → 0 ≤ n) ∧
      (op.capped = some true → op.size.isSome = true) := by
  have shape := operation_wellFormed asked
  refine ⟨shape.known, fun acting => shape.named ?_, fun f => shape.mem_fields, shape.required,
    ⟨?_, ?_, ?_, ?_⟩, fun operators held => ?_, fun document held => ?_, fun n held => ?_,
    shape.sized⟩
  · simpa [OperationKind.isNamed] using acting
  · exact shape.get_ne_some (f := .documents) (fun full => full rfl) (by decide)
  · exact shape.get_ne_some (f := .indexKeys) (fun full => full rfl) (by decide)
  · exact shape.get_ne_some (f := .distinctField) (fun full => full rfl) (by decide)
  · exact shape.get_ne_some (f := .newName) (fun full => full rfl) (by decide)
  · exact shape.valid_unless_limit (f := .update) held (by simp)
  · exact shape.valid_unless_limit (f := .replacement) held (by simp)
  · rcases held with skip | time | expiry | size | most | ⟨counting, limit⟩
    · exact shape.valid_unless_limit (f := .skip) skip (by simp)
    · exact shape.valid_unless_limit (f := .maxTimeMS) time (by simp)
    · exact shape.valid_unless_limit (f := .expireAfterSeconds) expiry (by simp)
    · exact shape.valid_unless_limit (f := .size) size (by simp)
    · exact shape.valid_unless_limit (f := .maxDocuments) most (by simp)
    · exact shape.valid_unless_limit (f := .limit) limit
        (by simp [counting, OperationKind.isCursor])

/-- The statement `db.createCollection("log", {capped: true, size: 1024})`. -/
def cappedCreation : Statement :=
  ⟨.database (.command .createCollection ⟨"createCollection",
    [.string Expr.nowhere "log", .object Expr.nowhere
      [.mk "capped" Expr.nowhere (.boolean Expr.nowhere true),
        .mk "size" Expr.nowhere (.number Expr.nowhere "1024")]], Expr.nowhere⟩),
    "db.createCollection(\"log\", \x7bcapped: true, size: 1024\x7d)", Expr.nowhere⟩

theorem cappedCreation_has_shape :
    cappedCreation.operation Registry.builtin (Fresh.ofSeed 0 0) =
        .ok { kind := .createCollection, collection := "log", capped := some true,
              size := some 1024 } ∧
      OperationKind.createCollection ≠ .unknown ∧ "log" ≠ "" ∧ (0 : Int) ≤ 1024 := by
  have asked : cappedCreation.operation Registry.builtin (Fresh.ofSeed 0 0) =
      .ok { kind := .createCollection, collection := "log", capped := some true,
            size := some 1024 } := by cbv
  obtain ⟨known, named, -, -, -, -, -, naturals, -⟩ := Statement.operation_has_shape asked
  exact ⟨asked, known, named (.inr rfl), naturals 1024 (.inr (.inr (.inr (.inl rfl))))⟩

end MongoShell
