import MongoShell.Operation
import MongoShell.Value.ToJson

/-!
Operations in JSON: one object, in which an absent field and the name of no collection are left out.
-/

namespace MongoShell

def IndexSelector.toJson : IndexSelector → Json
  | name text => .string text
  | keys pattern => Document.toJson pattern

/-- Documents as an array. -/
def Document.listToJson (documents : List Document) : Json := .array (documents.map Document.toJson)

def Update.toJson : Update → Json
  | document operators => Document.toJson operators
  | pipeline stages => Document.listToJson stages

namespace Operation

/-- The member for a field that is there. -/
def member {α : Type} (name : String) (toJson : α → Json) (field : Option α) :
    Option (String × Json) :=
  field.map fun value => (name, toJson value)

/-- The members of the object, in order, with a gap for each that is left out. -/
def members (op : Operation) : List (Option (String × Json)) :=
  [some ("kind", .string op.kind.name),
    if op.collection = "" then none else some ("collection", .string op.collection),
    member "filter" Document.toJson op.filter,
    member "sort" Document.toJson op.sort,
    member "projection" Document.toJson op.projection,
    member "hint" IndexSelector.toJson op.hint,
    member "max" Document.toJson op.max,
    member "min" Document.toJson op.min,
    member "limit" .ofInt op.limit,
    member "skip" .ofInt op.skip,
    member "maxTimeMS" .ofInt op.maxTimeMS,
    member "pipeline" Document.listToJson op.pipeline,
    member "document" Document.toJson op.document,
    member "documents" Document.listToJson op.documents,
    member "update" Update.toJson op.update,
    member "replacement" Document.toJson op.replacement,
    member "upsert" .boolean op.upsert,
    member "ordered" .boolean op.ordered,
    member "bypassDocumentValidation" .boolean op.bypassDocumentValidation,
    member "arrayFilters" Document.listToJson op.arrayFilters,
    member "returnDocument" (.string ·.name) op.returnDocument,
    member "distinctField" .string op.distinctField,
    member "indexKeys" Document.toJson op.indexKeys,
    member "indexName" .string op.indexName,
    member "unique" .boolean op.unique,
    member "sparse" .boolean op.sparse,
    member "expireAfterSeconds" .ofInt op.expireAfterSeconds,
    member "index" IndexSelector.toJson op.index,
    member "newName" .string op.newName,
    member "dropTarget" .boolean op.dropTarget,
    member "capped" .boolean op.capped,
    member "size" .ofInt op.size,
    member "maxDocuments" .ofInt op.maxDocuments,
    member "nameOnly" .boolean op.nameOnly,
    member "authorizedCollections" .boolean op.authorizedCollections]

def toJson (op : Operation) : Json := .object (op.members.filterMap id)

end Operation

end MongoShell
