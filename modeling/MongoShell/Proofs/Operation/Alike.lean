import MongoShell.Proofs.Operation.Field
import MongoShell.Proofs.Value.Alike

/-! Operations that two readings of one statement ask for: the same field by field, made-up values
apart. -/

namespace MongoShell

open Value (AlikeEntries)

inductive IndexSelector.Alike (f g : Fresh) : IndexSelector → IndexSelector → Prop
  | name (name : String) : Alike f g (.name name) (.name name)
  | keys {keys others : Document} (alike : AlikeEntries f g keys others) :
      Alike f g (.keys keys) (.keys others)

inductive Update.Alike (f g : Fresh) : Update → Update → Prop
  | document {document other : Document} (alike : AlikeEntries f g document other) :
      Alike f g (.document document) (.document other)
  | pipeline {stages others : List Document}
      (alike : List.Forall₂ (AlikeEntries f g) stages others) :
      Alike f g (.pipeline stages) (.pipeline others)

theorem IndexSelector.Alike.refl {f g : Fresh} (index : IndexSelector) : index.Alike f g index := by
  cases index with
  | name name => exact .name name
  | keys keys => exact .keys (.refl keys)

theorem forall₂_alikeEntries_refl {f g : Fresh} (documents : List Document) :
    List.Forall₂ (AlikeEntries f g) documents documents :=
  List.forall₂_same.mpr fun document _ => .refl document

theorem Update.Alike.refl {f g : Fresh} (update : Update) : update.Alike f g update := by
  cases update with
  | document document => exact .document (.refl document)
  | pipeline stages => exact .pipeline (forall₂_alikeEntries_refl stages)

/-- What a field holds in either operation. Only documents have made-up values in them. -/
def Field.Alike (f g : Fresh) : (field : Field) → field.Content → field.Content → Prop
  | .filter, entries, others => AlikeEntries f g entries others
  | .sort, entries, others => AlikeEntries f g entries others
  | .projection, entries, others => AlikeEntries f g entries others
  | .max, entries, others => AlikeEntries f g entries others
  | .min, entries, others => AlikeEntries f g entries others
  | .document, entries, others => AlikeEntries f g entries others
  | .replacement, entries, others => AlikeEntries f g entries others
  | .indexKeys, entries, others => AlikeEntries f g entries others
  | .pipeline, items, others => List.Forall₂ (AlikeEntries f g) items others
  | .documents, items, others => List.Forall₂ (AlikeEntries f g) items others
  | .arrayFilters, items, others => List.Forall₂ (AlikeEntries f g) items others
  | .hint, selector, other => IndexSelector.Alike f g selector other
  | .index, selector, other => IndexSelector.Alike f g selector other
  | .update, change, other => Update.Alike f g change other
  | _, content, other => content = other

namespace Operation

/-- The same operation of two readings, made-up values apart. -/
structure Alike (f g : Fresh) (op other : Operation) : Prop where
  kind : op.kind = other.kind
  collection : op.collection = other.collection
  fields : ∀ field, Option.Rel (field.Alike f g) (op.get field) (other.get field)

namespace Alike

variable {f g : Fresh} {op other : Operation}

/-- Operations that hold nothing yet. -/
theorem bare (kind : OperationKind) (collection : String) :
    Alike f g { kind, collection } { kind, collection } :=
  ⟨rfl, rfl, fun field => by cases field <;> exact .none⟩

theorem put (alike : Alike f g op other) (field : Field) {content content' : Option field.Content}
    (held : Option.Rel (field.Alike f g) content content') :
    Alike f g (op.put field content) (other.put field content') := by
  refine ⟨by simpa using alike.kind, by simpa using alike.collection, fun field' => ?_⟩
  by_cases same : field' = field
  · subst same
    simpa using held
  · rw [get_put_other op content same, get_put_other other content' same]
    exact alike.fields field'

theorem withKind (alike : Alike f g op other) (kind : OperationKind) :
    Alike f g { op with kind } { other with kind } :=
  ⟨rfl, alike.collection, fun field => by simpa using alike.fields field⟩

theorem withCollection (alike : Alike f g op other) (collection : String) :
    Alike f g { op with collection } { other with collection } :=
  ⟨alike.kind, rfl, fun field => by simpa using alike.fields field⟩

end Alike

end Operation

end MongoShell
