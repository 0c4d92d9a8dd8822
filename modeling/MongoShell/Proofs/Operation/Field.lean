import MongoShell.Operation

/-! The optional fields of an operation, one name for each, so that a statement about all fields is
one statement. Setting a field touches no other field, nor the kind, nor the collection. -/

namespace MongoShell

inductive Field where
  | filter
  | sort
  | projection
  | hint
  | max
  | min
  | limit
  | skip
  | maxTimeMS
  | pipeline
  | document
  | documents
  | update
  | replacement
  | upsert
  | ordered
  | bypassDocumentValidation
  | arrayFilters
  | returnDocument
  | distinctField
  | indexKeys
  | indexName
  | unique
  | sparse
  | expireAfterSeconds
  | index
  | newName
  | dropTarget
  | capped
  | size
  | maxDocuments
  | nameOnly
  | authorizedCollections
deriving DecidableEq, Repr

/-- What a field holds when it is there. -/
def Field.Content : Field → Type
  | filter | sort | projection | max | min | document | replacement | indexKeys => Document
  | pipeline | documents | arrayFilters => List Document
  | hint | index => IndexSelector
  | update => Update
  | returnDocument => ReturnDocument
  | limit | skip | maxTimeMS | expireAfterSeconds | size | maxDocuments => Int
  | distinctField | indexName | newName => String
  | upsert | ordered | bypassDocumentValidation | unique | sparse | dropTarget | capped | nameOnly
  | authorizedCollections => Bool

namespace Operation

def get (op : Operation) : (f : Field) → Option f.Content
  | .filter => op.filter
  | .sort => op.sort
  | .projection => op.projection
  | .hint => op.hint
  | .max => op.max
  | .min => op.min
  | .limit => op.limit
  | .skip => op.skip
  | .maxTimeMS => op.maxTimeMS
  | .pipeline => op.pipeline
  | .document => op.document
  | .documents => op.documents
  | .update => op.update
  | .replacement => op.replacement
  | .upsert => op.upsert
  | .ordered => op.ordered
  | .bypassDocumentValidation => op.bypassDocumentValidation
  | .arrayFilters => op.arrayFilters
  | .returnDocument => op.returnDocument
  | .distinctField => op.distinctField
  | .indexKeys => op.indexKeys
  | .indexName => op.indexName
  | .unique => op.unique
  | .sparse => op.sparse
  | .expireAfterSeconds => op.expireAfterSeconds
  | .index => op.index
  | .newName => op.newName
  | .dropTarget => op.dropTarget
  | .capped => op.capped
  | .size => op.size
  | .maxDocuments => op.maxDocuments
  | .nameOnly => op.nameOnly
  | .authorizedCollections => op.authorizedCollections

def put (op : Operation) : (f : Field) → Option f.Content → Operation
  | .filter, content => { op with filter := content }
  | .sort, content => { op with sort := content }
  | .projection, content => { op with projection := content }
  | .hint, content => { op with hint := content }
  | .max, content => { op with max := content }
  | .min, content => { op with min := content }
  | .limit, content => { op with limit := content }
  | .skip, content => { op with skip := content }
  | .maxTimeMS, content => { op with maxTimeMS := content }
  | .pipeline, content => { op with pipeline := content }
  | .document, content => { op with document := content }
  | .documents, content => { op with documents := content }
  | .update, content => { op with update := content }
  | .replacement, content => { op with replacement := content }
  | .upsert, content => { op with upsert := content }
  | .ordered, content => { op with ordered := content }
  | .bypassDocumentValidation, content => { op with bypassDocumentValidation := content }
  | .arrayFilters, content => { op with arrayFilters := content }
  | .returnDocument, content => { op with returnDocument := content }
  | .distinctField, content => { op with distinctField := content }
  | .indexKeys, content => { op with indexKeys := content }
  | .indexName, content => { op with indexName := content }
  | .unique, content => { op with unique := content }
  | .sparse, content => { op with sparse := content }
  | .expireAfterSeconds, content => { op with expireAfterSeconds := content }
  | .index, content => { op with index := content }
  | .newName, content => { op with newName := content }
  | .dropTarget, content => { op with dropTarget := content }
  | .capped, content => { op with capped := content }
  | .size, content => { op with size := content }
  | .maxDocuments, content => { op with maxDocuments := content }
  | .nameOnly, content => { op with nameOnly := content }
  | .authorizedCollections, content => { op with authorizedCollections := content }

@[simp] theorem get_put_same (op : Operation) (f : Field) (content : Option f.Content) :
    (op.put f content).get f = content := by
  cases f <;> rfl

theorem get_put_other (op : Operation) {f g : Field} (content : Option f.Content)
    (apart : g ≠ f) : (op.put f content).get g = op.get g := by
  cases f <;> cases g <;> first | rfl | exact absurd rfl apart

@[simp] theorem kind_put (op : Operation) (f : Field) (content : Option f.Content) :
    (op.put f content).kind = op.kind := by
  cases f <;> rfl

@[simp] theorem collection_put (op : Operation) (f : Field) (content : Option f.Content) :
    (op.put f content).collection = op.collection := by
  cases f <;> rfl

@[simp] theorem get_withKind (op : Operation) (kind : OperationKind) (f : Field) :
    { op with kind }.get f = op.get f := by
  cases f <;> rfl

@[simp] theorem get_withCollection (op : Operation) (collection : String) (f : Field) :
    { op with collection }.get f = op.get f := by
  cases f <;> rfl

/-- An operation that has been given no more than a kind and a collection has no field set. -/
@[simp] theorem get_bare (kind : OperationKind) (collection : String) (f : Field) :
    Operation.get { kind, collection } f = none := by
  cases f <;> rfl

/-- Operations that agree in their kind, their collection and every field are equal. -/
theorem eq_of_get_eq {first second : Operation} (kinds : first.kind = second.kind)
    (collections : first.collection = second.collection)
    (fields : ∀ f, first.get f = second.get f) : first = second := by
  cases first
  cases second
  rw [Operation.mk.injEq]
  exact ⟨kinds, collections, fields .filter, fields .sort, fields .projection, fields .hint,
    fields .max, fields .min, fields .limit, fields .skip, fields .maxTimeMS, fields .pipeline,
    fields .document, fields .documents, fields .update, fields .replacement, fields .upsert,
    fields .ordered, fields .bypassDocumentValidation, fields .arrayFilters, fields .returnDocument,
    fields .distinctField, fields .indexKeys, fields .indexName, fields .unique, fields .sparse,
    fields .expireAfterSeconds, fields .index, fields .newName, fields .dropTarget, fields .capped,
    fields .size, fields .maxDocuments, fields .nameOnly, fields .authorizedCollections⟩

/-- Whether an operation has no field but some. -/
def Within (op : Operation) (fields : List Field) : Prop := ∀ f, f ∉ fields → op.get f = none

theorem Within.put {op : Operation} {fields : List Field} (within : op.Within fields) {f : Field}
    (content : Option f.Content) (member : f ∈ fields) : (op.put f content).Within fields := by
  intro g foreign
  have other : g ≠ f := fun same => foreign (same ▸ member)
  rw [get_put_other op content other]
  exact within g foreign

/-- A field that is taken out need not be counted. -/
theorem Within.clear {op : Operation} {fields : List Field} {f : Field}
    (within : op.Within (f :: fields)) : (op.put f none).Within fields := by
  intro g foreign
  by_cases same : g = f
  · subst same
    exact get_put_same op g none
  · rw [get_put_other op none same]
    exact within g (by simp [same, foreign])

theorem Within.withKind {op : Operation} {fields : List Field} (within : op.Within fields)
    (kind : OperationKind) : { op with kind }.Within fields := by
  intro f foreign
  rw [get_withKind]
  exact within f foreign

theorem Within.mono {op : Operation} {fields more : List Field} (within : op.Within fields)
    (included : ∀ f ∈ fields, f ∈ more) : op.Within more :=
  fun f foreign => within f fun member => foreign (included f member)

theorem Within.eq {first second : Operation} {fields : List Field}
    (firstWithin : first.Within fields) (secondWithin : second.Within fields)
    (kinds : first.kind = second.kind) (collections : first.collection = second.collection)
    (agree : ∀ f ∈ fields, first.get f = second.get f) : first = second := by
  refine eq_of_get_eq kinds collections fun f => ?_
  by_cases member : f ∈ fields
  · exact agree f member
  · rw [firstWithin f member, secondWithin f member]

/-- An operation without fields is its kind and its collection. -/
theorem Within.eq_bare {op : Operation} (within : op.Within []) {kind : OperationKind}
    {collection : String} (kinds : kind = op.kind) (collections : collection = op.collection) :
    { kind, collection } = op :=
  Within.eq (fun f _ => get_bare kind collection f) within kinds collections (List.forall_mem_nil _)

end Operation

end MongoShell
