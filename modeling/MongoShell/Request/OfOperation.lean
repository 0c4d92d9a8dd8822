import MongoShell.Request

/-!
The request that an operation makes. All that an operation has to have is checked here, before any
request is sent: operations made by hand may lack a field or hold a number that makes no sense.
-/

namespace MongoShell

/-- Why an operation makes no request. -/
inductive OperationFault where
  | noOperation
  /-- A field that the kind needs is absent. -/
  | missing (kind : OperationKind) (what : String)
  | negative (what : String)
deriving DecidableEq, Repr

/-- The lesser of a statement's own limit and a cap. A limit of zero means no limit, so it never
takes the place of the cap. -/
def effectiveLimit (limit cap : Option Int) : Option Int :=
  match limit.filter (· ≠ 0), cap with
  | some limit, some cap => some (min limit cap)
  | some limit, none => some limit
  | none, cap => cap

def IndexSelector.target : IndexSelector → IndexTarget
  | name text => .name text
  | keys pattern => .keys (Document.mergeKeys pattern)

def Update.mergeKeys : Update → Update
  | document operators => document (Document.mergeKeys operators)
  | pipeline stages => pipeline (stages.map Document.mergeKeys)

namespace Operation

/-- A field that the kind needs. -/
def require {α : Type} (op : Operation) (what : String) (field : Option α) :
    Except OperationFault α :=
  match field with
  | some value => .ok value
  | none => .error (.missing op.kind what)

/-- The name of the collection, which has to be there. -/
def requireCollection (op : Operation) : Except OperationFault String :=
  if op.collection = "" then .error (.missing op.kind "a collection") else .ok op.collection

def requireFilter (op : Operation) : Except OperationFault Document := do
  let filter ← op.require "a filter" op.filter
  .ok filter.mergeKeys

def requireUpdate (op : Operation) : Except OperationFault Update := do
  let update ← op.require "an update" op.update
  .ok update.mergeKeys

def requireReplacement (op : Operation) : Except OperationFault Document := do
  let replacement ← op.require "a replacement document" op.replacement
  .ok replacement.mergeKeys

/-- A number that may be absent but not negative. -/
def natural (what : String) : Option Int → Except OperationFault (Option Nat)
  | none => .ok none
  | some n => if n < 0 then .error (.negative what) else .ok (some n.toNat)

def maxTime (op : Operation) : Except OperationFault (Option Nat) :=
  natural "maxTimeMS" op.maxTimeMS

/-- The filter, an absent one being the one that everything passes. -/
def anyFilter (op : Operation) : Document := (op.filter.getD []).mergeKeys

def hintTarget (op : Operation) : Option IndexTarget := op.hint.map IndexSelector.target

def mergedArrayFilters (op : Operation) : Option (List Document) :=
  op.arrayFilters.map (·.map Document.mergeKeys)

def findRequest (op : Operation) (limit : Option Int) : Except OperationFault FindRequest := do
  let collection ← op.requireCollection
  let maxTime ← op.maxTime
  .ok {
    collection, limit, maxTime
    filter := op.anyFilter
    sort := op.sort.map Document.mergeKeys
    projection := op.projection.map Document.mergeKeys
    hint := op.hintTarget
    max := op.max.map Document.mergeKeys
    min := op.min.map Document.mergeKeys
    skip := op.skip }

def aggregateRequest (op : Operation) : Except OperationFault AggregateRequest := do
  let collection ← op.requireCollection
  let maxTime ← op.maxTime
  .ok {
    collection, maxTime
    pipeline := (op.pipeline.getD []).map Document.mergeKeys
    hint := op.hintTarget }

def countRequest (op : Operation) (limit : Option Int) : Except OperationFault CountRequest := do
  let collection ← op.requireCollection
  let maxTime ← op.maxTime
  .ok { collection, limit, maxTime, filter := op.anyFilter, hint := op.hintTarget, skip := op.skip }

def distinctRequest (op : Operation) : Except OperationFault DistinctRequest := do
  let collection ← op.requireCollection
  let field ← op.require "a field name" op.distinctField
  let maxTime ← op.maxTime
  .ok { collection, field, maxTime, filter := op.anyFilter }

def insertRequest (op : Operation) (documents : List Document) :
    Except OperationFault InsertRequest := do
  let collection ← op.requireCollection
  .ok {
    collection
    documents := documents.map Document.mergeKeys
    ordered := op.ordered
    bypassDocumentValidation := op.bypassDocumentValidation }

def updateRequest (op : Operation) (multi : Bool) : Except OperationFault UpdateRequest := do
  let collection ← op.requireCollection
  let filter ← op.requireFilter
  let update ← op.requireUpdate
  .ok {
    collection, filter, update, multi
    upsert := op.upsert
    arrayFilters := op.mergedArrayFilters
    hint := op.hintTarget
    bypassDocumentValidation := op.bypassDocumentValidation }

def replaceRequest (op : Operation) : Except OperationFault ReplaceRequest := do
  let collection ← op.requireCollection
  let filter ← op.requireFilter
  let replacement ← op.requireReplacement
  .ok {
    collection, filter, replacement
    upsert := op.upsert
    hint := op.hintTarget
    bypassDocumentValidation := op.bypassDocumentValidation }

def deleteRequest (op : Operation) (multi : Bool) : Except OperationFault DeleteRequest := do
  let collection ← op.requireCollection
  let filter ← op.requireFilter
  .ok { collection, filter, multi, hint := op.hintTarget }

def findAndModifyRequest (op : Operation) (modification : Modification) :
    Except OperationFault FindAndModifyRequest := do
  let collection ← op.requireCollection
  let filter ← op.requireFilter
  let maxTime ← op.maxTime
  .ok {
    collection, filter, modification, maxTime
    projection := op.projection.map Document.mergeKeys
    sort := op.sort.map Document.mergeKeys
    upsert := op.upsert
    returnDocument := op.returnDocument.getD .before
    arrayFilters := op.mergedArrayFilters
    hint := op.hintTarget
    bypassDocumentValidation := op.bypassDocumentValidation }

def indexRequest (op : Operation) : Except OperationFault IndexRequest := do
  let collection ← op.requireCollection
  let keys ← op.require "index keys" op.indexKeys
  let expireAfter ← natural "expireAfterSeconds" op.expireAfterSeconds
  .ok {
    collection, expireAfter
    keys := keys.mergeKeys
    name := op.indexName
    unique := op.unique
    sparse := op.sparse }

def createCollectionRequest (op : Operation) : Except OperationFault CreateCollectionRequest := do
  let name ← op.requireCollection
  let size ← natural "size" op.size
  let max ← natural "max" op.maxDocuments
  .ok { name, size, max, capped := op.capped }

/-- The indexes that `dropIndexes` names: all of them, unless one is named otherwise than by a
star. -/
def dropIndexesTarget (op : Operation) : IndexTarget :=
  match op.index with
  | none => .all
  | some (.name text) => if text = "*" then .all else .name text
  | some index => index.target

/-- The request that an operation makes when at most `cap` rows are wanted. -/
def request (cap : Option Int) (op : Operation) : Except OperationFault Request :=
  match op.kind with
  | .unknown => .error .noOperation
  | .showDatabases => .ok .listDatabaseNames
  | .showCollections => .ok .listCollectionNames
  | .getCollectionNames => .ok .listCollectionNames
  | .getCollectionInfos =>
    .ok (.listCollections {
      filter := op.filter.map Document.mergeKeys
      nameOnly := op.nameOnly
      authorizedCollections := op.authorizedCollections })
  | .find => (op.findRequest (effectiveLimit op.limit cap)).map .find
  | .findOne => (op.findRequest op.limit).map .findOne
  | .aggregate => op.aggregateRequest.map .aggregate
  | .countDocuments => (op.countRequest (effectiveLimit op.limit cap)).map .countDocuments
  | .estimatedDocumentCount => do
    let collection ← op.requireCollection
    let maxTime ← op.maxTime
    .ok (.estimatedDocumentCount collection maxTime)
  | .distinct => op.distinctRequest.map .distinct
  | .insertOne => do
    let document ← op.require "a document" op.document
    (op.insertRequest [document]).map .insert
  | .insertMany => do
    let documents ← op.require "documents" op.documents
    (op.insertRequest documents).map .insert
  | .updateOne => (op.updateRequest false).map .update
  | .updateMany => (op.updateRequest true).map .update
  | .replaceOne => op.replaceRequest.map .replace
  | .deleteOne => (op.deleteRequest false).map .delete
  | .deleteMany => (op.deleteRequest true).map .delete
  | .findOneAndUpdate => do
    let update ← op.requireUpdate
    (op.findAndModifyRequest (.update update)).map .findAndModify
  | .findOneAndReplace => do
    let replacement ← op.requireReplacement
    (op.findAndModifyRequest (.replace replacement)).map .findAndModify
  | .findOneAndDelete => (op.findAndModifyRequest .delete).map .findAndModify
  | .createIndex => op.indexRequest.map .createIndex
  | .dropIndex => do
    let index ← op.require "an index" op.index
    let collection ← op.requireCollection
    .ok (.dropIndex collection index.target)
  | .dropIndexes => do
    let collection ← op.requireCollection
    .ok (.dropIndex collection op.dropIndexesTarget)
  | .getIndexes => op.requireCollection.map .listIndexes
  | .drop => op.requireCollection.map .dropCollection
  | .createCollection => op.createCollectionRequest.map .createCollection
  | .dropDatabase => .ok .dropDatabase
  | .renameCollection => do
    let newName ← op.require "a new name" op.newName
    let collection ← op.requireCollection
    .ok (.renameCollection collection newName (op.dropTarget.getD false))

end Operation

end MongoShell
