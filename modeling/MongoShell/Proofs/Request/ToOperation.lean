import MongoShell.Proofs.Outcome
import MongoShell.Proofs.Operation.WellFormed
import MongoShell.Proofs.Request.DistinctKeys

/-! Operations read off requests. A request shows every field of the operation that made it, but for
what an absent field stands for, and for which of two kinds it was that ask for the same. -/

namespace MongoShell

open Outcome

namespace Operation

variable {op : Operation}

/-! What the checks let pass -/

theorem requireCollection_eq_ok {collection : String}
    (done : op.requireCollection = .ok collection) : collection = op.collection := by
  unfold requireCollection at done
  split at done
  · cases done
  · cases done
    rfl

theorem require_eq_ok {α : Type} {what : String} {field : Option α} {x : α}
    (done : op.require what field = .ok x) : field = some x := by
  cases field with
  | none => cases done
  | some y =>
    cases done
    rfl

theorem natural_eq_ok {what : String} {field : Option Int} {n : Option Nat}
    (done : natural what field = .ok n) : n.map Int.ofNat = field := by
  cases field with
  | none =>
    cases done
    rfl
  | some m =>
    by_cases negative : m < 0
    · rw [natural, if_pos negative] at done
      cases done
    · rw [natural, if_neg negative, Except.ok.injEq] at done
      have exact : Int.ofNat m.toNat = m := Int.toNat_of_nonneg (Int.not_lt.mp negative)
      rw [← done, Option.map_some, exact]

theorem requireFilter_eq_ok {filter : Document} (distinct : op.DistinctKeys)
    (done : op.requireFilter = .ok filter) : op.filter = some filter := by
  obtain ⟨held, required, merged⟩ := (bind_eq_ok _ _ _).mp done
  have kept := distinct.filter
  rw [require_eq_ok required] at kept ⊢
  cases merged
  exact kept.symm

theorem requireUpdate_eq_ok {update : Update} (distinct : op.DistinctKeys)
    (done : op.requireUpdate = .ok update) : op.update = some update := by
  obtain ⟨held, required, merged⟩ := (bind_eq_ok _ _ _).mp done
  have present := require_eq_ok required
  cases merged
  rw [present, Update.mergeKeys_of_distinct (distinct .update held present)]

theorem requireReplacement_eq_ok {replacement : Document} (distinct : op.DistinctKeys)
    (done : op.requireReplacement = .ok replacement) : op.replacement = some replacement := by
  obtain ⟨held, required, merged⟩ := (bind_eq_ok _ _ _).mp done
  have kept : op.replacement.map Document.mergeKeys = op.replacement :=
    map_mergeKeys (distinct .replacement)
  rw [require_eq_ok required] at kept ⊢
  cases merged
  exact kept.symm

end Operation

/-! Operations read off requests -/

def FindRequest.toOperation (kind : OperationKind) (request : FindRequest) : Operation where
  kind
  collection := request.collection
  filter := some request.filter
  sort := request.sort
  projection := request.projection
  hint := request.hint.bind IndexTarget.selector?
  max := request.max
  min := request.min
  limit := request.limit
  skip := request.skip
  maxTimeMS := request.maxTime.map Int.ofNat

theorem FindRequest.toOperation_within (kind : OperationKind) (request : FindRequest) :
    (request.toOperation kind).Within OperationKind.find.fields := by
  intro f foreign
  cases f <;> first | rfl | exact absurd (by decide) foreign

def AggregateRequest.toOperation (request : AggregateRequest) : Operation where
  kind := .aggregate
  collection := request.collection
  pipeline := some request.pipeline
  hint := request.hint.bind IndexTarget.selector?
  maxTimeMS := request.maxTime.map Int.ofNat

theorem AggregateRequest.toOperation_within (request : AggregateRequest) :
    request.toOperation.Within OperationKind.aggregate.fields := by
  intro f foreign
  cases f <;> first | rfl | exact absurd (by decide) foreign

def CountRequest.toOperation (request : CountRequest) : Operation where
  kind := .countDocuments
  collection := request.collection
  filter := some request.filter
  hint := request.hint.bind IndexTarget.selector?
  limit := request.limit
  skip := request.skip
  maxTimeMS := request.maxTime.map Int.ofNat

theorem CountRequest.toOperation_within (request : CountRequest) :
    request.toOperation.Within OperationKind.countDocuments.fields := by
  intro f foreign
  cases f <;> first | rfl | exact absurd (by decide) foreign

def DistinctRequest.toOperation (request : DistinctRequest) : Operation where
  kind := .distinct
  collection := request.collection
  distinctField := some request.field
  filter := some request.filter
  maxTimeMS := request.maxTime.map Int.ofNat

theorem DistinctRequest.toOperation_within (request : DistinctRequest) :
    request.toOperation.Within OperationKind.distinct.fields := by
  intro f foreign
  cases f <;> first | rfl | exact absurd (by decide) foreign

def InsertRequest.toOperation (request : InsertRequest) : Operation where
  kind := .insertMany
  collection := request.collection
  documents := some request.documents
  ordered := request.ordered
  bypassDocumentValidation := request.bypassDocumentValidation

theorem InsertRequest.toOperation_within (request : InsertRequest) :
    request.toOperation.Within OperationKind.insertMany.fields := by
  intro f foreign
  cases f <;> first | rfl | exact absurd (by decide) foreign

def UpdateRequest.toOperation (request : UpdateRequest) : Operation where
  kind := if request.multi then .updateMany else .updateOne
  collection := request.collection
  filter := some request.filter
  update := some request.update
  upsert := request.upsert
  arrayFilters := request.arrayFilters
  hint := request.hint.bind IndexTarget.selector?
  bypassDocumentValidation := request.bypassDocumentValidation

theorem UpdateRequest.toOperation_within (request : UpdateRequest) :
    request.toOperation.Within OperationKind.updateOne.fields := by
  intro f foreign
  cases f <;> first | rfl | exact absurd (by decide) foreign

def ReplaceRequest.toOperation (request : ReplaceRequest) : Operation where
  kind := .replaceOne
  collection := request.collection
  filter := some request.filter
  replacement := some request.replacement
  upsert := request.upsert
  hint := request.hint.bind IndexTarget.selector?
  bypassDocumentValidation := request.bypassDocumentValidation

theorem ReplaceRequest.toOperation_within (request : ReplaceRequest) :
    request.toOperation.Within OperationKind.replaceOne.fields := by
  intro f foreign
  cases f <;> first | rfl | exact absurd (by decide) foreign

def DeleteRequest.toOperation (request : DeleteRequest) : Operation where
  kind := if request.multi then .deleteMany else .deleteOne
  collection := request.collection
  filter := some request.filter
  hint := request.hint.bind IndexTarget.selector?

theorem DeleteRequest.toOperation_within (request : DeleteRequest) :
    request.toOperation.Within OperationKind.deleteOne.fields := by
  intro f foreign
  cases f <;> first | rfl | exact absurd (by decide) foreign

def Modification.kind : Modification → OperationKind
  | update _ => .findOneAndUpdate
  | replace _ => .findOneAndReplace
  | delete => .findOneAndDelete

def Modification.update? : Modification → Option Update
  | update change => some change
  | _ => none

def Modification.replacement? : Modification → Option Document
  | replace document => some document
  | _ => none

def FindAndModifyRequest.toOperation (request : FindAndModifyRequest) : Operation where
  kind := request.modification.kind
  collection := request.collection
  filter := some request.filter
  update := request.modification.update?
  replacement := request.modification.replacement?
  projection := request.projection
  sort := request.sort
  upsert := request.upsert
  returnDocument := some request.returnDocument
  arrayFilters := request.arrayFilters
  hint := request.hint.bind IndexTarget.selector?
  maxTimeMS := request.maxTime.map Int.ofNat
  bypassDocumentValidation := request.bypassDocumentValidation

/-- The fields of all kinds that change one document that they find, and return it. -/
def OperationKind.modifying : List Field := .replacement :: findOneAndUpdate.fields

theorem FindAndModifyRequest.toOperation_within (request : FindAndModifyRequest) :
    request.toOperation.Within OperationKind.modifying := by
  intro f foreign
  cases f <;> first | rfl | exact absurd (by decide) foreign

def IndexRequest.toOperation (request : IndexRequest) : Operation where
  kind := .createIndex
  collection := request.collection
  indexKeys := some request.keys
  indexName := request.name
  unique := request.unique
  sparse := request.sparse
  expireAfterSeconds := request.expireAfter.map Int.ofNat

theorem IndexRequest.toOperation_within (request : IndexRequest) :
    request.toOperation.Within OperationKind.createIndex.fields := by
  intro f foreign
  cases f <;> first | rfl | exact absurd (by decide) foreign

def CreateCollectionRequest.toOperation (request : CreateCollectionRequest) : Operation where
  kind := .createCollection
  collection := request.name
  capped := request.capped
  size := request.size.map Int.ofNat
  maxDocuments := request.max.map Int.ofNat

theorem CreateCollectionRequest.toOperation_within (request : CreateCollectionRequest) :
    request.toOperation.Within OperationKind.createCollection.fields := by
  intro f foreign
  cases f <;> first | rfl | exact absurd (by decide) foreign

/-- The operation that drops the indexes of a target. -/
def IndexTarget.toOperation (collection : String) : IndexTarget → Operation
  | name text => { kind := .dropIndex, collection, index := some (.name text) }
  | keys pattern => { kind := .dropIndex, collection, index := some (.keys pattern) }
  | all => { kind := .dropIndexes, collection, index := some (.name "*") }

theorem IndexTarget.toOperation_within (collection : String) (target : IndexTarget) :
    (target.toOperation collection).Within OperationKind.dropIndex.fields := by
  intro f foreign
  cases target <;> cases f <;> first | rfl | exact absurd (by decide) foreign

/-- The operation in normal form that makes a request. -/
def Request.toOperation : Request → Operation
  | listDatabaseNames => { kind := .showDatabases }
  | listCollectionNames => { kind := .getCollectionNames }
  | listCollections request => {
      kind := .getCollectionInfos
      filter := request.filter
      nameOnly := request.nameOnly
      authorizedCollections := request.authorizedCollections }
  | find request => request.toOperation .find
  | findOne request => request.toOperation .findOne
  | aggregate request => request.toOperation
  | countDocuments request => request.toOperation
  | estimatedDocumentCount collection time =>
    { kind := .estimatedDocumentCount, collection, maxTimeMS := time.map Int.ofNat }
  | distinct request => request.toOperation
  | insert request => request.toOperation
  | update request => request.toOperation
  | replace request => request.toOperation
  | delete request => request.toOperation
  | findAndModify request => request.toOperation
  | createIndex request => request.toOperation
  | dropIndex collection target => target.toOperation collection
  | listIndexes collection => { kind := .getIndexes, collection }
  | dropCollection collection => { kind := .drop, collection }
  | createCollection request => request.toOperation
  | dropDatabase => { kind := .dropDatabase }
  | renameCollection source target dropTarget => {
      kind := .renameCollection
      collection := source
      newName := some target
      dropTarget := some dropTarget }

namespace Operation

variable {op : Operation} {limit : Option Int}

/-- Rows are asked for in a way that shows all of a search but whether it had a filter. -/
theorem findRequest_toOperation {request : FindRequest} (wellFormed : op.WellFormed)
    (distinct : op.DistinctKeys) (fields : op.kind.fields = OperationKind.find.fields)
    (made : op.findRequest limit = .ok request) :
    request.toOperation op.kind = { op with filter := some (op.filter.getD []), limit } := by
  simp only [findRequest, bind_eq_ok, Except.ok.injEq] at made
  obtain ⟨collection, named, time, timed, rfl⟩ := made
  have within := wellFormed.within
  rw [fields] at within
  refine (FindRequest.toOperation_within op.kind _).eq
    ((within.put (f := .filter) (some (op.filter.getD [])) (by decide)).put (f := .limit) limit
      (by decide)) rfl (requireCollection_eq_ok named) ?_
  simp only [OperationKind.fields, List.forall_mem_cons]
  exact ⟨congrArg some distinct.anyFilter, distinct.projection, distinct.hint, distinct.max,
    distinct.min, natural_eq_ok timed, distinct.sort, rfl, rfl, List.forall_mem_nil _⟩

theorem aggregateRequest_toOperation {request : AggregateRequest} (wellFormed : op.WellFormed)
    (distinct : op.DistinctKeys) (kind : op.kind = .aggregate)
    (made : op.aggregateRequest = .ok request) : request.toOperation = op := by
  simp only [aggregateRequest, bind_eq_ok, Except.ok.injEq] at made
  obtain ⟨collection, named, time, timed, rfl⟩ := made
  have within := wellFormed.within
  rw [kind] at within
  have present := wellFormed.required .pipeline (by rw [kind]; decide)
  obtain ⟨pipeline, held⟩ : ∃ pipeline, op.pipeline = some pipeline :=
    Option.isSome_iff_exists.mp present
  have kept : pipeline.map Document.mergeKeys = pipeline :=
    Document.mapMergeKeys_of_distinct (distinct .pipeline pipeline held)
  have stages : some ((op.pipeline.getD []).map Document.mergeKeys) = op.pipeline := by
    rw [held, Option.getD_some, kept]
  refine (AggregateRequest.toOperation_within _).eq within kind.symm
    (requireCollection_eq_ok named) ?_
  simp only [OperationKind.fields, List.forall_mem_cons]
  exact ⟨stages, distinct.hint, natural_eq_ok timed, List.forall_mem_nil _⟩

theorem countRequest_toOperation {request : CountRequest} (wellFormed : op.WellFormed)
    (distinct : op.DistinctKeys) (kind : op.kind = .countDocuments)
    (made : op.countRequest limit = .ok request) :
    request.toOperation = { op with filter := some (op.filter.getD []), limit } := by
  simp only [countRequest, bind_eq_ok, Except.ok.injEq] at made
  obtain ⟨collection, named, time, timed, rfl⟩ := made
  have within := wellFormed.within
  rw [kind] at within
  refine (CountRequest.toOperation_within _).eq
    ((within.put (f := .filter) (some (op.filter.getD [])) (by decide)).put (f := .limit) limit
      (by decide)) kind.symm (requireCollection_eq_ok named) ?_
  simp only [OperationKind.fields, List.forall_mem_cons]
  exact ⟨congrArg some distinct.anyFilter, distinct.hint, rfl, rfl, natural_eq_ok timed,
    List.forall_mem_nil _⟩

theorem distinctRequest_toOperation {request : DistinctRequest} (wellFormed : op.WellFormed)
    (distinct : op.DistinctKeys) (kind : op.kind = .distinct)
    (made : op.distinctRequest = .ok request) :
    request.toOperation = { op with filter := some (op.filter.getD []) } := by
  simp only [distinctRequest, bind_eq_ok, Except.ok.injEq] at made
  obtain ⟨collection, named, field, given, time, timed, rfl⟩ := made
  have within := wellFormed.within
  rw [kind] at within
  refine (DistinctRequest.toOperation_within _).eq
    (within.put (f := .filter) (some (op.filter.getD [])) (by decide)) kind.symm
    (requireCollection_eq_ok named) ?_
  simp only [OperationKind.fields, List.forall_mem_cons]
  exact ⟨(require_eq_ok given).symm, congrArg some distinct.anyFilter, natural_eq_ok timed,
    List.forall_mem_nil _⟩

/-- One document is inserted like a list of one. -/
theorem insertRequest_toOperation {documents : List Document} {request : InsertRequest}
    (wellFormed : op.WellFormed) (kind : op.kind = .insertOne ∨ op.kind = .insertMany)
    (distinct : ∀ d ∈ documents, d.DistinctKeys) (made : op.insertRequest documents = .ok request) :
    request.toOperation =
      { op with kind := .insertMany, document := none, documents := some documents } := by
  simp only [insertRequest, bind_eq_ok, Except.ok.injEq] at made
  obtain ⟨collection, named, rfl⟩ := made
  have within : op.Within (.document :: OperationKind.insertMany.fields) := by
    refine wellFormed.within.mono ?_
    rcases kind with kind | kind <;> rw [kind] <;> decide
  have normal := (within.clear.put (f := .documents) (some documents) (by decide)).withKind
    .insertMany
  have same : collection = op.collection := requireCollection_eq_ok named
  refine (InsertRequest.toOperation_within _).eq normal rfl same ?_
  simp only [OperationKind.fields, List.forall_mem_cons]
  exact ⟨congrArg some (Document.mapMergeKeys_of_distinct distinct), rfl, rfl,
    List.forall_mem_nil _⟩

theorem updateRequest_toOperation (multi : Bool) {request : UpdateRequest}
    (wellFormed : op.WellFormed) (distinct : op.DistinctKeys)
    (kind : op.kind = if multi then .updateMany else .updateOne)
    (made : op.updateRequest multi = .ok request) : request.toOperation = op := by
  simp only [updateRequest, bind_eq_ok, Except.ok.injEq] at made
  obtain ⟨collection, named, filter, filtered, update, updated, rfl⟩ := made
  have within : op.Within OperationKind.updateOne.fields := by
    have own := wellFormed.within
    rw [kind] at own
    cases multi <;> exact own
  refine (UpdateRequest.toOperation_within _).eq within kind.symm (requireCollection_eq_ok named) ?_
  simp only [OperationKind.fields, List.forall_mem_cons]
  exact ⟨(requireFilter_eq_ok distinct filtered).symm, (requireUpdate_eq_ok distinct updated).symm,
    rfl, distinct.arrayFilters, distinct.hint, rfl, List.forall_mem_nil _⟩

theorem replaceRequest_toOperation {request : ReplaceRequest} (wellFormed : op.WellFormed)
    (distinct : op.DistinctKeys) (kind : op.kind = .replaceOne)
    (made : op.replaceRequest = .ok request) : request.toOperation = op := by
  simp only [replaceRequest, bind_eq_ok, Except.ok.injEq] at made
  obtain ⟨collection, named, filter, filtered, replacement, replaced, rfl⟩ := made
  have within := wellFormed.within
  rw [kind] at within
  refine (ReplaceRequest.toOperation_within _).eq within kind.symm
    (requireCollection_eq_ok named) ?_
  simp only [OperationKind.fields, List.forall_mem_cons]
  exact ⟨(requireFilter_eq_ok distinct filtered).symm,
    (requireReplacement_eq_ok distinct replaced).symm, rfl, distinct.hint, rfl,
    List.forall_mem_nil _⟩

theorem deleteRequest_toOperation (multi : Bool) {request : DeleteRequest}
    (wellFormed : op.WellFormed) (distinct : op.DistinctKeys)
    (kind : op.kind = if multi then .deleteMany else .deleteOne)
    (made : op.deleteRequest multi = .ok request) : request.toOperation = op := by
  simp only [deleteRequest, bind_eq_ok, Except.ok.injEq] at made
  obtain ⟨collection, named, filter, filtered, rfl⟩ := made
  have within : op.Within OperationKind.deleteOne.fields := by
    have own := wellFormed.within
    rw [kind] at own
    cases multi <;> exact own
  refine (DeleteRequest.toOperation_within _).eq within kind.symm (requireCollection_eq_ok named) ?_
  simp only [OperationKind.fields, List.forall_mem_cons]
  exact ⟨(requireFilter_eq_ok distinct filtered).symm, distinct.hint, List.forall_mem_nil _⟩

/-- A modification has to be that of the operation: its update, its replacement, or neither. -/
theorem findAndModifyRequest_toOperation (modification : Modification)
    {request : FindAndModifyRequest} (wellFormed : op.WellFormed) (distinct : op.DistinctKeys)
    (kind : op.kind = modification.kind) (update : op.update = modification.update?)
    (replacement : op.replacement = modification.replacement?)
    (made : op.findAndModifyRequest modification = .ok request) :
    request.toOperation = { op with returnDocument := some (op.returnDocument.getD .before) } := by
  simp only [findAndModifyRequest, bind_eq_ok, Except.ok.injEq] at made
  obtain ⟨collection, named, filter, filtered, time, timed, rfl⟩ := made
  have within : op.Within OperationKind.modifying := by
    refine wellFormed.within.mono ?_
    rw [kind]
    cases modification <;> (simp only [Modification.kind]; decide)
  refine (FindAndModifyRequest.toOperation_within _).eq
    (within.put (f := .returnDocument) (some (op.returnDocument.getD .before)) (by decide))
    kind.symm (requireCollection_eq_ok named) ?_
  simp only [OperationKind.modifying, OperationKind.fields, List.forall_mem_cons]
  exact ⟨replacement.symm, (requireFilter_eq_ok distinct filtered).symm, update.symm,
    distinct.projection, distinct.sort, rfl, rfl, distinct.arrayFilters, distinct.hint,
    natural_eq_ok timed, rfl, List.forall_mem_nil _⟩

theorem indexRequest_toOperation {request : IndexRequest} (wellFormed : op.WellFormed)
    (distinct : op.DistinctKeys) (kind : op.kind = .createIndex)
    (made : op.indexRequest = .ok request) : request.toOperation = op := by
  simp only [indexRequest, bind_eq_ok, Except.ok.injEq] at made
  obtain ⟨collection, named, keys, given, expiry, expiring, rfl⟩ := made
  have within := wellFormed.within
  rw [kind] at within
  have held := require_eq_ok given
  have kept : keys.mergeKeys = keys :=
    Document.mergeKeys_of_distinct
      (distinct .indexKeys keys held keys (List.mem_singleton_self keys))
  refine (IndexRequest.toOperation_within _).eq within kind.symm (requireCollection_eq_ok named) ?_
  simp only [OperationKind.fields, List.forall_mem_cons]
  exact ⟨(congrArg some kept).trans held.symm, rfl, rfl, rfl, natural_eq_ok expiring,
    List.forall_mem_nil _⟩

theorem createCollectionRequest_toOperation {request : CreateCollectionRequest}
    (wellFormed : op.WellFormed) (kind : op.kind = .createCollection)
    (made : op.createCollectionRequest = .ok request) : request.toOperation = op := by
  simp only [createCollectionRequest, bind_eq_ok, Except.ok.injEq] at made
  obtain ⟨collection, named, size, sized, most, limited, rfl⟩ := made
  have within := wellFormed.within
  rw [kind] at within
  refine (CreateCollectionRequest.toOperation_within _).eq within kind.symm
    (requireCollection_eq_ok named) ?_
  simp only [OperationKind.fields, List.forall_mem_cons]
  exact ⟨rfl, natural_eq_ok sized, natural_eq_ok limited, List.forall_mem_nil _⟩

/-- The indexes that are dropped by one name or by keys, or all of them by a star. -/
theorem dropIndex_toOperation {index : IndexSelector} (wellFormed : op.WellFormed)
    (distinct : op.DistinctKeys) (kind : op.kind = .dropIndex) (held : op.index = some index) :
    index.target.toOperation op.collection = op := by
  have within := wellFormed.within
  rw [kind] at within
  have shown := IndexSelector.selector?_target (distinct .index index held)
  cases index with
  | name text =>
    refine (IndexTarget.toOperation_within op.collection _).eq within kind.symm rfl ?_
    simp only [OperationKind.fields, List.forall_mem_cons]
    exact ⟨held.symm, List.forall_mem_nil _⟩
  | keys pattern =>
    refine (IndexTarget.toOperation_within op.collection _).eq within kind.symm rfl ?_
    simp only [OperationKind.fields, List.forall_mem_cons]
    exact ⟨shown.trans held.symm, List.forall_mem_nil _⟩

theorem listCollections_toOperation (wellFormed : op.WellFormed) (distinct : op.DistinctKeys)
    (kind : op.kind = .getCollectionInfos) :
    Request.toOperation (.listCollections {
      filter := op.filter.map Document.mergeKeys
      nameOnly := op.nameOnly
      authorizedCollections := op.authorizedCollections }) = op := by
  have within := wellFormed.within
  have unnamed := wellFormed.unnamed
  rw [kind] at within unnamed
  refine Within.eq ?_ within kind.symm (unnamed rfl).symm ?_
  · intro f foreign
    cases f <;> first | rfl | exact absurd (by decide) foreign
  · simp only [OperationKind.fields, List.forall_mem_cons]
    exact ⟨distinct.filter, rfl, rfl, List.forall_mem_nil _⟩

theorem estimatedDocumentCount_toOperation {time : Option Nat} (wellFormed : op.WellFormed)
    (kind : op.kind = .estimatedDocumentCount) (timed : op.maxTime = .ok time) :
    (Request.estimatedDocumentCount op.collection time).toOperation = op := by
  have within := wellFormed.within
  rw [kind] at within
  refine Within.eq ?_ within kind.symm rfl ?_
  · intro f foreign
    cases f <;> first | rfl | exact absurd (by decide) foreign
  · simp only [OperationKind.fields, List.forall_mem_cons]
    exact ⟨natural_eq_ok timed, List.forall_mem_nil _⟩

theorem renameCollection_toOperation {target : String} (wellFormed : op.WellFormed)
    (kind : op.kind = .renameCollection) (given : op.newName = some target) :
    (Request.renameCollection op.collection target (op.dropTarget.getD false)).toOperation =
      { op with dropTarget := some (op.dropTarget.getD false) } := by
  have within := wellFormed.within
  rw [kind] at within
  refine Within.eq ?_
    (within.put (f := .dropTarget) (some (op.dropTarget.getD false)) (by decide)) kind.symm rfl ?_
  · intro f foreign
    cases f <;> first | rfl | exact absurd (by decide) foreign
  · simp only [OperationKind.fields, List.forall_mem_cons]
    exact ⟨given.symm, rfl, List.forall_mem_nil _⟩

end Operation

end MongoShell
