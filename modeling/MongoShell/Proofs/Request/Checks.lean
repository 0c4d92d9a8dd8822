import MongoShell.Proofs.Method.Effect
import MongoShell.Proofs.Outcome
import MongoShell.Request.OfOperation

/-! What an operation is checked for before it makes a request. The checks of a kind are made one
after the other up to the first that fails, which is the one that is reported; an operation of which
none fails makes a request. -/

namespace MongoShell

open Outcome

inductive Check where
  /-- There is an operation at all. -/
  | known
  /-- The collection has a name. -/
  | collection
  /-- A field is there. -/
  | present (what : String) (f : Field)
  /-- A number is not negative if it is there. -/
  | natural (what : String) (f : Field)
deriving DecidableEq, Repr

namespace Check

/-- A number that is not valid for its field is one below zero. -/
def Fails (op : Operation) : Check → Prop
  | known => op.kind = .unknown
  | collection => op.collection = ""
  | present _ f => op.get f = none
  | natural _ f => ∃ x, op.get f = some x ∧ ¬f.Valid x

/-- The fault that is reported where a check fails. -/
def fault (kind : OperationKind) : Check → OperationFault
  | known => .noOperation
  | collection => .missing kind "a collection"
  | present what _ => .missing kind what
  | natural what _ => .negative what

end Check

/-- The checks of each kind in the order in which they are made. -/
def OperationKind.checks : OperationKind → List Check
  | unknown => [.known]
  | showDatabases | showCollections | getCollectionNames | getCollectionInfos | dropDatabase => []
  | find | findOne | aggregate | countDocuments | estimatedDocumentCount =>
    [.collection, .natural "maxTimeMS" .maxTimeMS]
  | distinct =>
    [.collection, .present "a field name" .distinctField, .natural "maxTimeMS" .maxTimeMS]
  | insertOne => [.present "a document" .document, .collection]
  | insertMany => [.present "documents" .documents, .collection]
  | updateOne | updateMany =>
    [.collection, .present "a filter" .filter, .present "an update" .update]
  | replaceOne =>
    [.collection, .present "a filter" .filter, .present "a replacement document" .replacement]
  | deleteOne | deleteMany => [.collection, .present "a filter" .filter]
  | findOneAndUpdate =>
    [.present "an update" .update, .collection, .present "a filter" .filter,
      .natural "maxTimeMS" .maxTimeMS]
  | findOneAndReplace =>
    [.present "a replacement document" .replacement, .collection, .present "a filter" .filter,
      .natural "maxTimeMS" .maxTimeMS]
  | findOneAndDelete =>
    [.collection, .present "a filter" .filter, .natural "maxTimeMS" .maxTimeMS]
  | createIndex =>
    [.collection, .present "index keys" .indexKeys,
      .natural "expireAfterSeconds" .expireAfterSeconds]
  | dropIndex => [.present "an index" .index, .collection]
  | dropIndexes | getIndexes | drop => [.collection]
  | createCollection => [.collection, .natural "size" .size, .natural "max" .maxDocuments]
  | renameCollection => [.present "a new name" .newName, .collection]

namespace Operation

/-- An outcome is that of checks made one after the other, up to the first that fails. -/
inductive Checked {α : Type} (op : Operation) : List Check → Except OperationFault α → Prop
  | done (a : α) : Checked op [] (.ok a)
  | fails {check : Check} {rest : List Check} (failing : check.Fails op) :
      Checked op (check :: rest) (.error (check.fault op.kind))
  | passes {check : Check} {rest : List Check} {outcome : Except OperationFault α}
      (passing : ¬check.Fails op) (others : Checked op rest outcome) :
      Checked op (check :: rest) outcome

/-- The fault of the first of some checks that fails. -/
def FirstFault (op : Operation) (checks : List Check) (fault : OperationFault) : Prop :=
  ∃ passed check rest, checks = passed ++ check :: rest ∧
    (∀ other ∈ passed, ¬other.Fails op) ∧ check.Fails op ∧ check.fault op.kind = fault

section

variable {op : Operation} {check : Check} {rest : List Check} {fault : OperationFault}

theorem not_firstFault_nil : ¬op.FirstFault [] fault := by
  rintro ⟨passed, check, rest, parted, -⟩
  cases passed <;> cases parted

theorem firstFault_cons_of_fails (failing : check.Fails op) :
    op.FirstFault (check :: rest) fault ↔ check.fault op.kind = fault := by
  constructor
  · rintro ⟨passed, other, behind, parted, pass, -, rfl⟩
    cases passed with
    | nil => rw [(List.cons.inj parted).1]
    | cons first passed =>
      obtain rfl := (List.cons.inj parted).1
      exact absurd failing (pass check (.head _))
  · intro same
    exact ⟨[], check, rest, rfl, nofun, failing, same⟩

theorem firstFault_cons_of_passes (passing : ¬check.Fails op) :
    op.FirstFault (check :: rest) fault ↔ op.FirstFault rest fault := by
  constructor
  · rintro ⟨passed, other, behind, parted, pass, fails, same⟩
    cases passed with
    | nil =>
      obtain rfl := (List.cons.inj parted).1
      exact absurd fails passing
    | cons first passed =>
      exact ⟨passed, other, behind, (List.cons.inj parted).2,
        fun other member => pass other (.tail _ member), fails, same⟩
  · rintro ⟨passed, other, behind, rfl, pass, fails, same⟩
    exact ⟨check :: passed, other, behind, rfl, List.forall_mem_cons.mpr ⟨passing, pass⟩, fails,
      same⟩

end

theorem exists_firstFault_iff {op : Operation} {checks : List Check} :
    (∃ fault, op.FirstFault checks fault) ↔ ∃ check ∈ checks, check.Fails op := by
  induction checks with
  | nil => simp [not_firstFault_nil]
  | cons check rest ih =>
    by_cases failing : check.Fails op
    · simp [firstFault_cons_of_fails failing, failing]
    · simp [firstFault_cons_of_passes failing, failing, ih]

/-- There is no operation where that is what is reported. -/
theorem firstFault_noOperation_iff {op : Operation} :
    op.FirstFault op.kind.checks .noOperation ↔ op.kind = .unknown := by
  constructor
  · rintro ⟨passed, check, rest, -, -, fails, same⟩
    cases check with
    | known => exact fails
    | collection => cases same
    | present what f => cases same
    | natural what f => cases same
  · intro kind
    exact ⟨[], .known, [], by rw [kind]; rfl, nofun, kind, rfl⟩

namespace Checked

variable {α β : Type} {op : Operation} {checks : List Check} {outcome : Except OperationFault α}

theorem bind {others : List Check} {next : α → Except OperationFault β}
    (first : op.Checked checks outcome) (more : ∀ a, op.Checked others (next a)) :
    op.Checked (checks ++ others) (outcome >>= next) := by
  induction first with
  | done a => exact more a
  | fails failing => exact .fails failing
  | passes passing others ih => exact .passes passing ih

theorem map (checked : op.Checked checks outcome) (f : α → β) :
    op.Checked checks (outcome.map f) := by
  induction checked with
  | done a => exact .done (f a)
  | fails failing => exact .fails failing
  | passes passing others ih => exact .passes passing ih

theorem succeeds_iff (checked : op.Checked checks outcome) :
    Succeeds outcome ↔ ∀ check ∈ checks, ¬check.Fails op := by
  induction checked with
  | done a => simp [Succeeds]
  | fails failing => simp [Succeeds, failing]
  | passes passing others ih => simp [ih, passing]

theorem eq_error_iff (checked : op.Checked checks outcome) (fault : OperationFault) :
    outcome = .error fault ↔ op.FirstFault checks fault := by
  induction checked with
  | done a => simp [not_firstFault_nil]
  | fails failing => rw [Except.error.injEq, firstFault_cons_of_fails failing]
  | passes passing others ih => rw [ih, firstFault_cons_of_passes passing]

end Checked

/-! Each check -/

variable (op : Operation)

theorem requireCollection_checked : op.Checked [.collection] op.requireCollection := by
  by_cases empty : op.collection = ""
  · rw [requireCollection, if_pos empty]
    exact .fails empty
  · rw [requireCollection, if_neg empty]
    exact .passes empty (.done _)

theorem require_checked (what : String) (f : Field) :
    op.Checked [.present what f] (op.require what (op.get f)) := by
  cases held : op.get f with
  | none => exact .fails held
  | some x => exact .passes (by simp [Check.Fails, held]) (.done x)

/-- A number is refused below zero. -/
theorem natural_checked (what : String) (f : Field) {number : Option Int}
    (held : (Check.natural what f).Fails op ↔ ∃ n, number = some n ∧ ¬0 ≤ n) :
    op.Checked [.natural what f] (natural what number) := by
  cases number with
  | none => exact .passes (by simp [held]) (.done none)
  | some n =>
    by_cases negative : n < 0
    · rw [natural, if_pos negative]
      exact .fails (held.mpr ⟨n, rfl, Int.not_le.mpr negative⟩)
    · rw [natural, if_neg negative]
      exact .passes (by simpa [held] using negative) (.done _)

theorem requireFilter_checked : op.Checked [.present "a filter" .filter] op.requireFilter :=
  (op.require_checked "a filter" .filter).bind fun _ => .done _

theorem requireUpdate_checked : op.Checked [.present "an update" .update] op.requireUpdate :=
  (op.require_checked "an update" .update).bind fun _ => .done _

theorem requireReplacement_checked :
    op.Checked [.present "a replacement document" .replacement] op.requireReplacement :=
  (op.require_checked "a replacement document" .replacement).bind fun _ => .done _

theorem maxTime_checked : op.Checked [.natural "maxTimeMS" .maxTimeMS] op.maxTime :=
  op.natural_checked "maxTimeMS" .maxTimeMS .rfl

/-! Each request -/

theorem findRequest_checked (limit : Option Int) :
    op.Checked [.collection, .natural "maxTimeMS" .maxTimeMS] (op.findRequest limit) :=
  op.requireCollection_checked.bind fun _ => op.maxTime_checked.bind fun _ => .done _

theorem aggregateRequest_checked :
    op.Checked [.collection, .natural "maxTimeMS" .maxTimeMS] op.aggregateRequest :=
  op.requireCollection_checked.bind fun _ => op.maxTime_checked.bind fun _ => .done _

theorem countRequest_checked (limit : Option Int) :
    op.Checked [.collection, .natural "maxTimeMS" .maxTimeMS] (op.countRequest limit) :=
  op.requireCollection_checked.bind fun _ => op.maxTime_checked.bind fun _ => .done _

theorem distinctRequest_checked :
    op.Checked [.collection, .present "a field name" .distinctField,
      .natural "maxTimeMS" .maxTimeMS] op.distinctRequest :=
  op.requireCollection_checked.bind fun _ =>
    (op.require_checked "a field name" .distinctField).bind fun _ =>
      op.maxTime_checked.bind fun _ => .done _

theorem insertRequest_checked (documents : List Document) :
    op.Checked [.collection] (op.insertRequest documents) :=
  op.requireCollection_checked.bind fun _ => .done _

theorem updateRequest_checked (multi : Bool) :
    op.Checked [.collection, .present "a filter" .filter, .present "an update" .update]
      (op.updateRequest multi) :=
  op.requireCollection_checked.bind fun _ => op.requireFilter_checked.bind fun _ =>
    op.requireUpdate_checked.bind fun _ => .done _

theorem replaceRequest_checked :
    op.Checked [.collection, .present "a filter" .filter,
      .present "a replacement document" .replacement] op.replaceRequest :=
  op.requireCollection_checked.bind fun _ => op.requireFilter_checked.bind fun _ =>
    op.requireReplacement_checked.bind fun _ => .done _

theorem deleteRequest_checked (multi : Bool) :
    op.Checked [.collection, .present "a filter" .filter] (op.deleteRequest multi) :=
  op.requireCollection_checked.bind fun _ => op.requireFilter_checked.bind fun _ => .done _

theorem findAndModifyRequest_checked (modification : Modification) :
    op.Checked [.collection, .present "a filter" .filter, .natural "maxTimeMS" .maxTimeMS]
      (op.findAndModifyRequest modification) :=
  op.requireCollection_checked.bind fun _ => op.requireFilter_checked.bind fun _ =>
    op.maxTime_checked.bind fun _ => .done _

theorem indexRequest_checked :
    op.Checked [.collection, .present "index keys" .indexKeys,
      .natural "expireAfterSeconds" .expireAfterSeconds] op.indexRequest :=
  op.requireCollection_checked.bind fun _ =>
    (op.require_checked "index keys" .indexKeys).bind fun _ =>
      (op.natural_checked "expireAfterSeconds" .expireAfterSeconds .rfl).bind fun _ => .done _

theorem createCollectionRequest_checked :
    op.Checked [.collection, .natural "size" .size, .natural "max" .maxDocuments]
      op.createCollectionRequest :=
  op.requireCollection_checked.bind fun _ => (op.natural_checked "size" .size .rfl).bind fun _ =>
    (op.natural_checked "max" .maxDocuments .rfl).bind fun _ => .done _

/-- An operation makes its request if it passes the checks of its kind. -/
theorem request_checked (cap : Option Int) : op.Checked op.kind.checks (op.request cap) := by
  cases kind : op.kind <;> simp only [request, kind, OperationKind.checks]
  case unknown => exact .fails kind
  case find => exact (op.findRequest_checked _).map _
  case findOne => exact (op.findRequest_checked _).map _
  case aggregate => exact op.aggregateRequest_checked.map _
  case countDocuments => exact (op.countRequest_checked _).map _
  case estimatedDocumentCount =>
    exact op.requireCollection_checked.bind fun _ => op.maxTime_checked.bind fun _ => .done _
  case distinct => exact op.distinctRequest_checked.map _
  case insertOne =>
    exact (op.require_checked "a document" .document).bind fun document =>
      (op.insertRequest_checked [document]).map _
  case insertMany =>
    exact (op.require_checked "documents" .documents).bind fun documents =>
      (op.insertRequest_checked documents).map _
  case updateOne => exact (op.updateRequest_checked false).map _
  case updateMany => exact (op.updateRequest_checked true).map _
  case replaceOne => exact op.replaceRequest_checked.map _
  case deleteOne => exact (op.deleteRequest_checked false).map _
  case deleteMany => exact (op.deleteRequest_checked true).map _
  case findOneAndUpdate =>
    exact op.requireUpdate_checked.bind fun update =>
      (op.findAndModifyRequest_checked (.update update)).map _
  case findOneAndReplace =>
    exact op.requireReplacement_checked.bind fun replacement =>
      (op.findAndModifyRequest_checked (.replace replacement)).map _
  case findOneAndDelete => exact (op.findAndModifyRequest_checked .delete).map _
  case createIndex => exact op.indexRequest_checked.map _
  case dropIndex =>
    exact (op.require_checked "an index" .index).bind fun _ =>
      op.requireCollection_checked.bind fun _ => .done _
  case dropIndexes => exact op.requireCollection_checked.bind fun _ => .done _
  case getIndexes => exact op.requireCollection_checked.map _
  case drop => exact op.requireCollection_checked.map _
  case createCollection => exact op.createCollectionRequest_checked.map _
  case renameCollection =>
    exact (op.require_checked "a new name" .newName).bind fun _ =>
      op.requireCollection_checked.bind fun _ => .done _
  all_goals exact .done _

end Operation

end MongoShell
