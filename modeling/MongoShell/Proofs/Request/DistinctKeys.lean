import MongoShell.Proofs.Operation.Field
import MongoShell.Request.OfOperation

/-! Documents that have each key once at every depth. Merging keys, which is what becomes of every
document on its way into a request, leaves them as they are; so a request shows the documents of its
operation, and the indexes that it selects by keys. -/

namespace MongoShell

namespace Value

mutual

/-- Whether every document in a value has each key once. -/
def DistinctKeys : Value → Prop
  | document entries => (Document.keys entries).Nodup ∧ EntriesDistinct entries
  | array items => ItemsDistinct items
  | _ => True

def EntriesDistinct : List (String × Value) → Prop
  | [] => True
  | (_, value) :: rest => value.DistinctKeys ∧ EntriesDistinct rest

def ItemsDistinct : List Value → Prop
  | [] => True
  | value :: rest => value.DistinctKeys ∧ ItemsDistinct rest

end

end Value

namespace Document

def DistinctKeys (document : Document) : Prop := (Value.document document).DistinctKeys

theorem keys_append (first second : Document) :
    keys (first ++ second) = keys first ++ keys second :=
  List.map_append

theorem put_of_not_mem {key : String} {value : Value} {document : Document}
    (fresh : key ∉ document.keys) : put key value document = document ++ [(key, value)] := by
  induction document with
  | nil => rfl
  | cons entry rest ih =>
    obtain ⟨other, old⟩ := entry
    have distinct : other ≠ key := fun same => fresh (by simp [keys, same])
    have absent : key ∉ keys rest := fun member => fresh (List.mem_cons_of_mem other member)
    rw [put, if_neg distinct, ih absent, List.cons_append]

end Document

namespace Value

mutual

theorem mergeKeys_of_distinct : (value : Value) → value.DistinctKeys → value.mergeKeys = value
  | document entries, distinct => by
    rw [DistinctKeys] at distinct
    rw [mergeKeys, mergeEntries_of_distinct [] entries distinct.1 distinct.2, List.nil_append]
  | array items, distinct => by
    rw [DistinctKeys] at distinct
    rw [mergeKeys, mergeItems_of_distinct items distinct]
  | null, _ | double _, _ | string _, _ | binary _ _, _ | objectId _, _ | boolean _, _ | date _, _
  | regex _ _, _ | int32 _, _ | int64 _, _ | timestamp _ _, _ | decimal _, _ | minKey, _
  | maxKey, _ => by
    rw [mergeKeys]
    all_goals intro _ same; cases same

theorem mergeEntries_of_distinct (merged : Document) : (entries : Document) →
    (Document.keys (merged ++ entries)).Nodup → EntriesDistinct entries →
    mergeEntries merged entries = merged ++ entries
  | [], _, _ => by rw [mergeEntries, List.append_nil]
  | (key, value) :: rest, apart, distinct => by
    rw [EntriesDistinct] at distinct
    have fresh : key ∉ Document.keys merged := by
      intro member
      rw [Document.keys_append] at apart
      exact (List.nodup_append.mp apart).2.2 key member key (by simp [Document.keys]) rfl
    rw [List.append_cons] at apart
    rw [mergeEntries, mergeKeys_of_distinct value distinct.1, Document.put_of_not_mem fresh,
      mergeEntries_of_distinct _ rest apart distinct.2, ← List.append_cons]

theorem mergeItems_of_distinct : (items : List Value) → ItemsDistinct items →
    mergeItems items = items
  | [], _ => by rw [mergeItems]
  | value :: rest, distinct => by
    rw [ItemsDistinct] at distinct
    rw [mergeItems, mergeKeys_of_distinct value distinct.1, mergeItems_of_distinct rest distinct.2]

end

end Value

namespace Document

theorem mergeKeys_of_distinct {document : Document} (distinct : document.DistinctKeys) :
    document.mergeKeys = document := by
  rw [DistinctKeys, Value.DistinctKeys] at distinct
  exact Value.mergeEntries_of_distinct [] document distinct.1 distinct.2

theorem mapMergeKeys_of_distinct {documents : List Document}
    (distinct : ∀ d ∈ documents, d.DistinctKeys) : documents.map mergeKeys = documents := by
  calc documents.map mergeKeys = documents.map id :=
        List.map_congr_left fun d member => mergeKeys_of_distinct (distinct d member)
    _ = documents := List.map_id documents

end Document

/-! Documents of operations -/

def IndexSelector.documents : IndexSelector → List Document
  | name _ => []
  | keys pattern => [pattern]

def Update.documents : Update → List Document
  | document operators => [operators]
  | pipeline stages => stages

/-- The documents that a field holds. -/
def Field.documentsIn : (f : Field) → f.Content → List Document
  | .filter, d | .sort, d | .projection, d | .max, d | .min, d | .document, d | .replacement, d
  | .indexKeys, d => [d]
  | .pipeline, ds | .documents, ds | .arrayFilters, ds => ds
  | .hint, selector | .index, selector => selector.documents
  | .update, change => change.documents
  | .limit, _ | .skip, _ | .maxTimeMS, _ | .expireAfterSeconds, _ | .size, _ | .maxDocuments, _
  | .distinctField, _ | .indexName, _ | .newName, _ | .upsert, _ | .ordered, _
  | .bypassDocumentValidation, _ | .unique, _ | .sparse, _ | .dropTarget, _ | .capped, _
  | .nameOnly, _ | .authorizedCollections, _ | .returnDocument, _ => []

/-- Whether no document of an operation has a key twice, at any depth. -/
def Operation.DistinctKeys (op : Operation) : Prop :=
  ∀ f x, op.get f = some x → ∀ d ∈ f.documentsIn x, d.DistinctKeys

def IndexTarget.selector? : IndexTarget → Option IndexSelector
  | name text => some (.name text)
  | keys pattern => some (.keys pattern)
  | all => none

theorem IndexSelector.selector?_target {selector : IndexSelector}
    (distinct : ∀ d ∈ selector.documents, d.DistinctKeys) :
    selector.target.selector? = some selector := by
  cases selector with
  | name text => rfl
  | keys pattern =>
    have pure := Document.mergeKeys_of_distinct (distinct pattern (List.mem_singleton_self pattern))
    rw [target, pure, IndexTarget.selector?]

theorem Update.mergeKeys_of_distinct {update : Update}
    (distinct : ∀ d ∈ update.documents, d.DistinctKeys) : update.mergeKeys = update := by
  cases update with
  | document operators =>
    rw [mergeKeys, Document.mergeKeys_of_distinct (distinct operators (List.mem_singleton_self _))]
  | pipeline stages =>
    have kept : stages.map Document.mergeKeys = stages := Document.mapMergeKeys_of_distinct distinct
    rw [mergeKeys, kept]

namespace Operation

variable {op : Operation}

/-- Merging keys changes no field that holds a document. -/
theorem map_mergeKeys {document : Option Document}
    (distinct : ∀ d, document = some d → ∀ e ∈ [d], e.DistinctKeys) :
    document.map Document.mergeKeys = document := by
  cases document with
  | none => rfl
  | some d =>
    rw [Option.map_some,
      Document.mergeKeys_of_distinct (distinct d rfl d (List.mem_singleton_self d))]

namespace DistinctKeys

theorem filter (distinct : op.DistinctKeys) : op.filter.map Document.mergeKeys = op.filter :=
  map_mergeKeys (distinct .filter)

theorem sort (distinct : op.DistinctKeys) : op.sort.map Document.mergeKeys = op.sort :=
  map_mergeKeys (distinct .sort)

theorem projection (distinct : op.DistinctKeys) :
    op.projection.map Document.mergeKeys = op.projection :=
  map_mergeKeys (distinct .projection)

theorem max (distinct : op.DistinctKeys) : op.max.map Document.mergeKeys = op.max :=
  map_mergeKeys (distinct .max)

theorem min (distinct : op.DistinctKeys) : op.min.map Document.mergeKeys = op.min :=
  map_mergeKeys (distinct .min)

theorem anyFilter (distinct : op.DistinctKeys) : op.anyFilter = op.filter.getD [] := by
  unfold Operation.anyFilter
  have kept := distinct.filter
  cases held : op.filter with
  | none => rfl
  | some filter =>
    rw [held, Option.map_some, Option.some.injEq] at kept
    exact kept

theorem hint (distinct : op.DistinctKeys) : op.hintTarget.bind IndexTarget.selector? = op.hint := by
  unfold hintTarget
  cases held : op.hint with
  | none => rfl
  | some selector => exact IndexSelector.selector?_target (distinct .hint selector held)

theorem arrayFilters (distinct : op.DistinctKeys) : op.mergedArrayFilters = op.arrayFilters := by
  unfold mergedArrayFilters
  cases held : op.arrayFilters with
  | none => rfl
  | some filters =>
    exact congrArg some (Document.mapMergeKeys_of_distinct (distinct .arrayFilters filters held))

end DistinctKeys

end Operation

end MongoShell
