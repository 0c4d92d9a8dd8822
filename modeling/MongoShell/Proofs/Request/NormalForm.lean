import Mathlib
import MongoShell.Proofs.Execution.Acceptance
import MongoShell.Proofs.Request.ToOperation

/-! What a request still tells of the operation that made it, where no cap is set. Some operations
differ in nothing that a client would see: they have one normal form. That form can be read off the
request, so operations of two normal forms never make the same request. -/

namespace MongoShell

open Outcome

/-- The operation that stands for all that ask the same of a client. What a kind takes for an absent
field is written out, and of two kinds that can ask the same one is chosen. -/
def Operation.normalForm (op : Operation) : Operation :=
  match op.kind with
  | .find | .countDocuments =>
    { op with filter := some (op.filter.getD []), limit := op.limit.filter (· ≠ 0) }
  | .findOne | .distinct => { op with filter := some (op.filter.getD []) }
  | .findOneAndUpdate | .findOneAndReplace | .findOneAndDelete =>
    { op with returnDocument := some (op.returnDocument.getD .before) }
  | .renameCollection => { op with dropTarget := some (op.dropTarget.getD false) }
  | .dropIndexes =>
    match op.index with
    | none => { op with index := some (.name "*") }
    | some (.name text) => if text = "*" then op else { op with kind := .dropIndex }
    | some (.keys _) => op
  | .showCollections => { op with kind := .getCollectionNames }
  | .insertOne =>
    { op with kind := .insertMany, document := none, documents := op.document.map ([·]) }
  | _ => op

namespace Operation

variable {op : Operation}

theorem dropIndexes_toOperation (wellFormed : op.WellFormed) (kind : op.kind = .dropIndexes) :
    op.dropIndexesTarget.toOperation op.collection = op.normalForm := by
  have within := wellFormed.within
  rw [kind] at within
  cases held : op.index with
  | none =>
    have target : op.dropIndexesTarget = .all := by rw [dropIndexesTarget, held]
    have normal : op.normalForm = op.put .index (some (.name "*")) := by
      simp only [normalForm, kind, held]
      rw [← kind]
      rfl
    rw [target, normal]
    refine (IndexTarget.toOperation_within op.collection _).eq (within.put _ (by decide)) kind.symm
      rfl ?_
    simp only [OperationKind.fields, List.forall_mem_cons]
    exact ⟨rfl, List.forall_mem_nil _⟩
  | some index =>
    cases index with
    | keys pattern => exact absurd held (wellFormed.byName kind pattern)
    | name text =>
      by_cases star : text = "*"
      · have target : op.dropIndexesTarget = .all := by
          simp only [dropIndexesTarget, held, if_pos star]
        have normal : op.normalForm = op := by simp only [normalForm, kind, held, if_pos star]
        rw [target, normal]
        rw [star] at held
        refine (IndexTarget.toOperation_within op.collection _).eq within kind.symm rfl ?_
        simp only [OperationKind.fields, List.forall_mem_cons]
        exact ⟨held.symm, List.forall_mem_nil _⟩
      · have target : op.dropIndexesTarget = .name text := by
          simp only [dropIndexesTarget, held, if_neg star]
        have normal : op.normalForm = { op with kind := .dropIndex } := by
          simp only [normalForm, kind, held, if_neg star]
        rw [target, normal]
        refine (IndexTarget.toOperation_within op.collection _).eq (within.withKind .dropIndex)
          rfl rfl ?_
        simp only [OperationKind.fields, List.forall_mem_cons]
        exact ⟨held.symm, List.forall_mem_nil _⟩

theorem effectiveLimit_none (limit : Option Int) :
    effectiveLimit limit none = limit.filter (· ≠ 0) := by
  unfold effectiveLimit
  cases limit.filter (· ≠ 0) <;> rfl

/-- The request that an operation makes under no cap gives the operation back, in normal form. -/
theorem WellFormed.toOperation_request {request : Request} (wellFormed : op.WellFormed)
    (distinct : op.DistinctKeys) (made : op.request none = .ok request) :
    request.toOperation = op.normalForm := by
  have within := wellFormed.within
  have unnamed := wellFormed.unnamed
  cases kind : op.kind <;> simp only [Operation.request, kind] at made <;>
    rw [kind] at within unnamed
  case unknown => cases made
  case find =>
    obtain ⟨search, asked, rfl⟩ := (map_eq_ok _ _ _).mp made
    have given := findRequest_toOperation wellFormed distinct (by rw [kind]) asked
    rw [kind, effectiveLimit_none] at given
    simp only [normalForm, kind]
    exact given
  case findOne =>
    obtain ⟨search, asked, rfl⟩ := (map_eq_ok _ _ _).mp made
    have given := findRequest_toOperation wellFormed distinct (by rw [kind]; rfl) asked
    rw [kind] at given
    simp only [normalForm, kind]
    exact given
  case aggregate =>
    obtain ⟨aggregation, asked, rfl⟩ := (map_eq_ok _ _ _).mp made
    simp only [normalForm, kind]
    exact aggregateRequest_toOperation wellFormed distinct kind asked
  case countDocuments =>
    obtain ⟨counting, asked, rfl⟩ := (map_eq_ok _ _ _).mp made
    have given := countRequest_toOperation wellFormed distinct kind asked
    rw [kind, effectiveLimit_none] at given
    simp only [normalForm, kind]
    exact given
  case estimatedDocumentCount =>
    simp only [bind_eq_ok, Except.ok.injEq] at made
    obtain ⟨collection, named, time, timed, rfl⟩ := made
    simp only [normalForm, kind]
    rw [requireCollection_eq_ok named]
    exact estimatedDocumentCount_toOperation wellFormed kind timed
  case distinct =>
    obtain ⟨listing, asked, rfl⟩ := (map_eq_ok _ _ _).mp made
    have given := distinctRequest_toOperation wellFormed distinct kind asked
    rw [kind] at given
    simp only [normalForm, kind]
    exact given
  case insertOne =>
    simp only [bind_eq_ok, map_eq_ok] at made
    obtain ⟨document, given, insertion, asked, rfl⟩ := made
    have held : op.document = some document := require_eq_ok given
    have keys : ∀ d ∈ [document], d.DistinctKeys := distinct .document document held
    simp only [normalForm, kind, held]
    exact insertRequest_toOperation wellFormed (.inl kind) keys asked
  case insertMany =>
    simp only [bind_eq_ok, map_eq_ok] at made
    obtain ⟨documents, given, insertion, asked, rfl⟩ := made
    have held : op.documents = some documents := require_eq_ok given
    have alone : op.document = none := within .document (by decide)
    simp only [normalForm, kind]
    calc insertion.toOperation
        = { op with kind := .insertMany, document := none, documents := some documents } :=
          insertRequest_toOperation wellFormed (.inr kind) (distinct .documents documents held)
            asked
      _ = op := by rw [← held, ← kind, ← alone]
  case updateOne =>
    obtain ⟨change, asked, rfl⟩ := (map_eq_ok _ _ _).mp made
    simp only [normalForm, kind]
    exact updateRequest_toOperation false wellFormed distinct kind asked
  case updateMany =>
    obtain ⟨change, asked, rfl⟩ := (map_eq_ok _ _ _).mp made
    simp only [normalForm, kind]
    exact updateRequest_toOperation true wellFormed distinct kind asked
  case replaceOne =>
    obtain ⟨change, asked, rfl⟩ := (map_eq_ok _ _ _).mp made
    simp only [normalForm, kind]
    exact replaceRequest_toOperation wellFormed distinct kind asked
  case deleteOne =>
    obtain ⟨deletion, asked, rfl⟩ := (map_eq_ok _ _ _).mp made
    simp only [normalForm, kind]
    exact deleteRequest_toOperation false wellFormed distinct kind asked
  case deleteMany =>
    obtain ⟨deletion, asked, rfl⟩ := (map_eq_ok _ _ _).mp made
    simp only [normalForm, kind]
    exact deleteRequest_toOperation true wellFormed distinct kind asked
  case findOneAndUpdate =>
    simp only [bind_eq_ok, map_eq_ok] at made
    obtain ⟨update, updated, change, asked, rfl⟩ := made
    have given := findAndModifyRequest_toOperation (.update update) wellFormed distinct kind
      (requireUpdate_eq_ok distinct updated) (within .replacement (by decide)) asked
    rw [kind] at given
    simp only [normalForm, kind]
    exact given
  case findOneAndReplace =>
    simp only [bind_eq_ok, map_eq_ok] at made
    obtain ⟨replacement, replaced, change, asked, rfl⟩ := made
    have given := findAndModifyRequest_toOperation (.replace replacement) wellFormed distinct kind
      (within .update (by decide)) (requireReplacement_eq_ok distinct replaced) asked
    rw [kind] at given
    simp only [normalForm, kind]
    exact given
  case findOneAndDelete =>
    obtain ⟨change, asked, rfl⟩ := (map_eq_ok _ _ _).mp made
    have given := findAndModifyRequest_toOperation .delete wellFormed distinct kind
      (within .update (by decide)) (within .replacement (by decide)) asked
    rw [kind] at given
    simp only [normalForm, kind]
    exact given
  case createIndex =>
    obtain ⟨creation, asked, rfl⟩ := (map_eq_ok _ _ _).mp made
    simp only [normalForm, kind]
    exact indexRequest_toOperation wellFormed distinct kind asked
  case dropIndex =>
    simp only [bind_eq_ok, Except.ok.injEq] at made
    obtain ⟨index, given, collection, named, rfl⟩ := made
    simp only [normalForm, kind]
    rw [requireCollection_eq_ok named]
    exact dropIndex_toOperation wellFormed distinct kind (require_eq_ok given)
  case dropIndexes =>
    simp only [bind_eq_ok, Except.ok.injEq] at made
    obtain ⟨collection, named, rfl⟩ := made
    rw [requireCollection_eq_ok named]
    exact dropIndexes_toOperation wellFormed kind
  case createCollection =>
    obtain ⟨creation, asked, rfl⟩ := (map_eq_ok _ _ _).mp made
    simp only [normalForm, kind]
    exact createCollectionRequest_toOperation wellFormed kind asked
  case getIndexes =>
    obtain ⟨collection, named, rfl⟩ := (map_eq_ok _ _ _).mp made
    simp only [normalForm, kind]
    exact Within.eq_bare within kind.symm (requireCollection_eq_ok named)
  case drop =>
    obtain ⟨collection, named, rfl⟩ := (map_eq_ok _ _ _).mp made
    simp only [normalForm, kind]
    exact Within.eq_bare within kind.symm (requireCollection_eq_ok named)
  case renameCollection =>
    simp only [bind_eq_ok, Except.ok.injEq] at made
    obtain ⟨target, given, collection, named, rfl⟩ := made
    have shown := renameCollection_toOperation wellFormed kind (require_eq_ok given)
    rw [kind] at shown
    simp only [normalForm, kind]
    rw [requireCollection_eq_ok named]
    exact shown
  case getCollectionInfos =>
    cases made
    simp only [normalForm, kind]
    exact listCollections_toOperation wellFormed distinct kind
  case showDatabases =>
    cases made
    simp only [normalForm, kind]
    exact within.eq_bare kind.symm (unnamed rfl).symm
  case showCollections =>
    cases made
    simp only [normalForm, kind]
    exact (within.withKind .getCollectionNames).eq_bare rfl (unnamed rfl).symm
  case getCollectionNames =>
    cases made
    simp only [normalForm, kind]
    exact within.eq_bare kind.symm (unnamed rfl).symm
  case dropDatabase =>
    cases made
    simp only [normalForm, kind]
    exact within.eq_bare kind.symm (unnamed rfl).symm

theorem effectiveLimit_filter (limit : Option Int) :
    effectiveLimit (limit.filter (· ≠ 0)) none = effectiveLimit limit none := by
  rw [effectiveLimit_none, effectiveLimit_none, Option.filter_filter]
  simp only [Bool.and_self]

/-- An operation and its normal form make the same request. -/
theorem WellFormed.request_normalForm (wellFormed : op.WellFormed) :
    op.normalForm.request none = op.request none := by
  cases kind : op.kind <;> simp only [normalForm, kind]
  case find =>
    simp only [Operation.request, findRequest, requireCollection, kind, effectiveLimit_filter]
    rfl
  case findOne =>
    simp only [Operation.request, findRequest, requireCollection, kind]
    rfl
  case showCollections => simp only [Operation.request, kind]
  case countDocuments =>
    simp only [Operation.request, countRequest, requireCollection, kind, effectiveLimit_filter]
    rfl
  case distinct =>
    simp only [Operation.request, distinctRequest, requireCollection, require, kind]
    rfl
  case insertOne =>
    have present := wellFormed.required .document (by rw [kind]; decide)
    obtain ⟨document, held⟩ : ∃ document, op.document = some document :=
      Option.isSome_iff_exists.mp present
    have named := wellFormed.named (by rw [kind]; decide)
    simp only [Operation.request, insertRequest, requireCollection, require, kind, held,
      if_neg named]
    rfl
  case findOneAndUpdate =>
    simp only [Operation.request, findAndModifyRequest, requireCollection, requireUpdate,
      requireFilter, require, kind]
    rfl
  case findOneAndReplace =>
    simp only [Operation.request, findAndModifyRequest, requireCollection, requireReplacement,
      requireFilter, require, kind]
    rfl
  case findOneAndDelete =>
    simp only [Operation.request, findAndModifyRequest, requireCollection, requireFilter, require,
      kind]
    rfl
  case dropIndexes =>
    have named := wellFormed.named (by rw [kind]; decide)
    cases held : op.index with
    | none =>
      simp only [Operation.request, requireCollection, dropIndexesTarget, kind, held, if_neg named]
      rfl
    | some index =>
      cases index with
      | keys pattern => exact absurd held (wellFormed.byName kind pattern)
      | name text =>
        by_cases star : text = "*"
        · simp only [if_pos star]
        · simp only [Operation.request, requireCollection, dropIndexesTarget, kind, held,
            if_neg star,
            if_neg named]
          rfl
  case renameCollection =>
    simp only [Operation.request, requireCollection, require, kind]
    rfl

end Operation

namespace Settings

/-- An execution under no cap sends a request that tells the normal form of its operation. -/
theorem execute_tells_normalForm {δ ω : Type} (settings : Settings) (client : Client δ ω)
    {op : Operation} (wellFormed : op.WellFormed) (distinct : op.DistinctKeys) (text : String)
    {rowCap : Option Int} (uncapped : rowCap.or settings.rowCap = none) :
    ∃ request, (settings.execute client op text rowCap).sent = some request ∧
      op.request none = .ok request ∧ request.toOperation = op.normalForm := by
  obtain ⟨request, made⟩ := wellFormed.request_succeeds none
  refine ⟨request, ?_, made, wellFormed.toOperation_request distinct made⟩
  rw [execute_sent (uncapped ▸ made)]

/-- Under no cap, two operations whose documents have each key once send the same request exactly
if they have the same normal form. Requests are the same if they are so to the letter: the order of
keys counts, and so does every bit of a number. -/
theorem sent_eq_iff_normalForm_eq {firstSettings secondSettings : Settings}
    {firstDocument firstOther secondDocument secondOther : Type}
    {firstClient : Client firstDocument firstOther}
    {secondClient : Client secondDocument secondOther} {firstRegistry secondRegistry : Registry}
    {firstFresh secondFresh : Fresh} {firstStatement secondStatement : Statement}
    {first second : Operation} {firstCap secondCap : Option Int}
    (firstTranslated : firstStatement.operation firstRegistry firstFresh = .ok first)
    (secondTranslated : secondStatement.operation secondRegistry secondFresh = .ok second)
    (firstDistinct : first.DistinctKeys) (secondDistinct : second.DistinctKeys)
    (firstUncapped : firstCap.or firstSettings.rowCap = none)
    (secondUncapped : secondCap.or secondSettings.rowCap = none) :
    (firstSettings.execute firstClient first firstStatement.text firstCap).sent =
        (secondSettings.execute secondClient second secondStatement.text secondCap).sent ↔
      first.normalForm = second.normalForm := by
  have firstShape := Statement.operation_wellFormed firstTranslated
  have secondShape := Statement.operation_wellFormed secondTranslated
  obtain ⟨firstRequest, firstSent, firstMade, firstTold⟩ :=
    execute_tells_normalForm firstSettings firstClient firstShape firstDistinct
      firstStatement.text firstUncapped
  obtain ⟨secondRequest, secondSent, secondMade, secondTold⟩ :=
    execute_tells_normalForm secondSettings secondClient secondShape secondDistinct
      secondStatement.text secondUncapped
  rw [firstSent, secondSent, Option.some.injEq]
  constructor
  · intro same
    rw [← firstTold, ← secondTold, same]
  · intro same
    have requests : first.request none = second.request none := by
      rw [← firstShape.request_normalForm, ← secondShape.request_normalForm, same]
    rw [firstMade, secondMade, Except.ok.injEq] at requests
    exact requests

/-- The statement `db.users.m(e)` for a method and an argument of it. -/
def callOnUsers (method : String) (argument : Expr) : Statement :=
  ⟨.database (.collection ⟨.member "users", ⟨method, [argument], Expr.nowhere⟩, []⟩),
    "db.users." ++ method, Expr.nowhere⟩

/-- The document literal with one entry, a name. -/
def nameLiteral (name : String) : Expr :=
  .object Expr.nowhere [.mk "name" Expr.nowhere (.string Expr.nowhere name)]

def oneInsertion : Operation :=
  { kind := .insertOne, collection := "users", document := some [("name", .string "Ada")] }

def listInsertion : Operation :=
  { kind := .insertMany, collection := "users", documents := some [[("name", .string "Ada")]] }

theorem oneInsertion_translated :
    (callOnUsers "insertOne" (nameLiteral "Ada")).operation Registry.builtin (Fresh.ofSeed 0 0) =
      .ok oneInsertion := by
  unfold oneInsertion
  cbv

theorem listInsertion_translated :
    (callOnUsers "insertMany" (.array Expr.nowhere [nameLiteral "Ada"])).operation Registry.builtin
      (Fresh.ofSeed 1 1) = .ok listInsertion := by
  unfold listInsertion
  cbv

theorem insertOne_sends_as_insertMany :
    (Settings.execute { timeout := some 9 }
        (fun _ => ⟨0, .error (.client "closed")⟩ : Client Document Value) oneInsertion
        "db.users.insertOne" none).sent =
      (Settings.execute {} (fun _ => ⟨7, .error .unknownOperation⟩ : Client Document Value)
        listInsertion "db.users.insertMany" none).sent := by
  have keys : Document.DistinctKeys [("name", .string "Ada")] := by
    simp [Document.DistinctKeys, Document.keys, Value.DistinctKeys, Value.EntriesDistinct]
  have same : oneInsertion.normalForm = listInsertion.normalForm := by
    simp only [Operation.normalForm, oneInsertion, listInsertion, Option.map_some]
  refine (sent_eq_iff_normalForm_eq oneInsertion_translated listInsertion_translated ?_ ?_ rfl
    rfl).mpr same
  · intro f x held d member
    cases f <;> cases held
    rw [List.mem_singleton.mp member]
    exact keys
  · intro f x held d member
    cases f <;> cases held
    rw [List.mem_singleton.mp member]
    exact keys

end Settings

end MongoShell
