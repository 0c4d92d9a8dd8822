import MongoShell.Method
import MongoShell.Method.Modifier
import MongoShell.Proofs.Operation.Field
import MongoShell.Proofs.Outcome

/-! What each argument of a call does to the operation: it sets one field, to a content that passes
the check of that field, and leaves everything else as it was. -/

namespace MongoShell

open Outcome

/-- An update is a document of operators only, at least one, or any pipeline. -/
def Update.Valid : Update → Prop
  | document operators => operators ≠ [] ∧ ∀ key ∈ Document.keys operators, isOperatorKey key = true
  | pipeline _ => True

/-- The check that a content has passed before it is put into its field. -/
def Field.Valid : (f : Field) → f.Content → Prop
  | limit, n => (0 : Int) ≤ n
  | skip, n => (0 : Int) ≤ n
  | maxTimeMS, n => (0 : Int) ≤ n
  | expireAfterSeconds, n => (0 : Int) ≤ n
  | size, n => (0 : Int) ≤ n
  | maxDocuments, n => (0 : Int) ≤ n
  | documents, items => items ≠ ([] : List Document)
  | indexKeys, keys => keys ≠ ([] : Document)
  | distinctField, name => name ≠ ""
  | newName, name => name ≠ ""
  | update, change => Update.Valid change
  | replacement, entries => ∀ key ∈ Document.keys entries, isOperatorKey key = false
  | _, _ => True

/-- The two operations differ in one field at most; it is there if it is required, and valid if it
is there. -/
def Operation.Sets (f : Field) (required : Bool) (before after : Operation) : Prop :=
  ∃ content : Option f.Content, after = before.put f content ∧
    (required = true → content.isSome) ∧ ∀ x, content = some x → f.Valid x

theorem Operation.sets_optional {before : Operation} (f : Field) {content : Option f.Content}
    (valid : ∀ x, content = some x → f.Valid x) : before.Sets f false (before.put f content) := by
  refine ⟨content, rfl, fun required => ?_, valid⟩
  cases required

theorem Operation.sets_present {before : Operation} {required : Bool} (f : Field)
    {content : f.Content} (valid : f.Valid content) :
    before.Sets f required (before.put f (some content)) := by
  refine ⟨some content, rfl, fun _ => rfl, fun x same => ?_⟩
  cases same
  exact valid

/-! Readings that succeed -/

theorem readGiven_some {α : Type} {read : Value → Except ArgumentFault α}
    {given : Option Value} {x : α} (done : readGiven read given = .ok (some x)) :
    ∃ value, read value = .ok x := by
  cases given with
  | none => cases done
  | some value =>
    obtain ⟨y, readValue, same⟩ := (map_eq_ok _ _ _).mp done
    cases same
    exact ⟨value, readValue⟩

theorem Argument.read_required {α : Type} {fresh : Fresh} {argument : Option Expr}
    {absent : ArgumentFault} {read : Value → Except ArgumentFault α} {x : α}
    (done : Argument.read fresh argument (readRequired absent read) = .ok x) :
    ∃ value, read value = .ok x := by
  obtain ⟨given, _, rest⟩ := (bind_eq_ok _ _ _).mp done
  have required := (mapError_eq_ok _ _ _).mp rest
  cases given with
  | none => cases required
  | some value => exact ⟨value, required⟩

theorem Argument.name_ne_empty {what : String} {argument : Option Expr} {text : String}
    (done : Argument.name what argument = .ok text) : text ≠ "" := by
  obtain ⟨literal, _, rest⟩ := (bind_eq_ok _ _ _).mp done
  cases literal with
  | none => cases rest
  | some found =>
    by_cases empty : found = ""
    · simp [empty] at rest
    · simp only [if_neg empty, Except.ok.injEq] at rest
      exact rest ▸ empty

theorem refuseEmpty_ne_nil {α : Type} {what : String} {items kept : List α}
    (done : refuseEmpty what items = .ok kept) : kept ≠ [] := by
  unfold refuseEmpty at done
  split at done
  · cases done
  · rename_i full
    cases done
    simpa using full

theorem Value.asNatural_nonneg {what : String} {value : Value} {n : Int}
    (done : value.asNatural what = .ok n) : 0 ≤ n := by
  obtain ⟨whole, _, rest⟩ := (bind_eq_ok _ _ _).mp done
  by_cases negative : whole < 0
  · simp [negative] at rest
  · simp only [if_neg negative, Except.ok.injEq] at rest
    omega

theorem Value.asUpdate_valid {value : Value} {update : Update}
    (done : value.asUpdate = .ok update) : update.Valid := by
  cases value with
  | document entries =>
    simp only [Value.asUpdate, checkOperators] at done
    split at done
    · cases done
    · rename_i full
      split at done
      · cases done
      · rename_i none
        cases done
        refine ⟨full, fun key member => ?_⟩
        simpa using List.find?_eq_none.mp none key member
  | array items =>
    obtain ⟨stages, _, rfl⟩ := (map_eq_ok _ _ _).mp done
    trivial
  | _ => cases done

theorem Value.asReplacement_plain {value : Value} {replacement : Document}
    (done : value.asReplacement = .ok replacement) :
    ∀ key ∈ replacement.keys, isOperatorKey key = false := by
  obtain ⟨document, _, rest⟩ := (bind_eq_ok _ _ _).mp done
  split at rest
  · cases rest
  · rename_i none
    cases rest
    intro key member
    simpa using List.find?_eq_none.mp none key member

/-! Parameters -/

/-- The field that a parameter sets; the one for a collection's name sets none. -/
def Parameter.field? : Parameter → Option Field
  | filter | requiredFilter => some .filter
  | projection => some .projection
  | pipeline => some .pipeline
  | distinctField => some .distinctField
  | document => some .document
  | documents => some .documents
  | update => some .update
  | replacement => some .replacement
  | indexKeys => some .indexKeys
  | index | indexName => some .index
  | newName => some .newName
  | dropTarget => some .dropTarget
  | collectionName => none

/-- Whether the field is there after every call. -/
def Parameter.isRequired : Parameter → Bool
  | filter | projection | indexName | dropTarget => false
  | _ => true

theorem Parameter.set_sets {fresh : Fresh} {argument : Option Expr} {before after : Operation}
    {parameter : Parameter} {f : Field} (target : parameter.field? = some f)
    (done : parameter.set fresh argument before = .ok after) :
    before.Sets f parameter.isRequired after := by
  cases parameter <;> cases target <;>
    simp only [Parameter.set, bind_eq_ok, Except.ok.injEq] at done <;>
    obtain ⟨content, read, rfl⟩ := done
  case filter => exact Operation.sets_optional .filter fun _ _ => trivial
  case requiredFilter => exact Operation.sets_present .filter trivial
  case projection => exact Operation.sets_optional .projection fun _ _ => trivial
  case pipeline => exact Operation.sets_present .pipeline trivial
  case distinctField => exact Operation.sets_present .distinctField (Argument.name_ne_empty read)
  case document => exact Operation.sets_present .document trivial
  case documents =>
    obtain ⟨value, checked⟩ := Argument.read_required read
    obtain ⟨documents, _, full⟩ := (bind_eq_ok _ _ _).mp checked
    exact Operation.sets_present .documents (refuseEmpty_ne_nil full)
  case update =>
    obtain ⟨value, checked⟩ := Argument.read_required read
    exact Operation.sets_present .update (Value.asUpdate_valid checked)
  case replacement =>
    obtain ⟨value, checked⟩ := Argument.read_required read
    exact Operation.sets_present .replacement (Value.asReplacement_plain checked)
  case indexKeys =>
    obtain ⟨value, checked⟩ := Argument.read_required read
    obtain ⟨keys, _, full⟩ := (bind_eq_ok _ _ _).mp checked
    exact Operation.sets_present .indexKeys (refuseEmpty_ne_nil full)
  case index => exact Operation.sets_present .index trivial
  case indexName => exact Operation.sets_optional .index fun _ _ => trivial
  case newName => exact Operation.sets_present .newName (Argument.name_ne_empty read)
  case dropTarget => exact Operation.sets_optional .dropTarget fun _ _ => trivial

theorem Parameter.set_collectionName {fresh : Fresh} {argument : Option Expr}
    {before after : Operation}
    (done : Parameter.collectionName.set fresh argument before = .ok after) :
    ∃ name, name ≠ "" ∧ after = { before with collection := name } := by
  simp only [Parameter.set, bind_eq_ok, Except.ok.injEq] at done
  obtain ⟨name, read, rfl⟩ := done
  exact ⟨name, Argument.name_ne_empty read, rfl⟩

/-! Options -/

/-- The field that an option sets. -/
def MethodOption.field : MethodOption → Field
  | hint => .hint
  | max => .max
  | min => .min
  | maxTimeMS => .maxTimeMS
  | limit => .limit
  | skip => .skip
  | projection => .projection
  | sort => .sort
  | upsert => .upsert
  | ordered => .ordered
  | bypassDocumentValidation => .bypassDocumentValidation
  | arrayFilters => .arrayFilters
  | returnDocument => .returnDocument
  | name => .indexName
  | unique => .unique
  | sparse => .sparse
  | expireAfterSeconds => .expireAfterSeconds
  | nameOnly => .nameOnly
  | authorizedCollections => .authorizedCollections
  | capped => .capped
  | size => .size
  | maxDocuments => .maxDocuments

theorem Document.readOption_natural {key : String} {options : Document} {content : Option Int}
    (done : options.readOption key Value.asNatural = .ok content) (n : Int)
    (given : content = some n) : 0 ≤ n := by
  subst given
  obtain ⟨value, read⟩ := readGiven_some done
  exact Value.asNatural_nonneg read

theorem MethodOption.set_sets {options : Document} {before after : Operation}
    {option : MethodOption} (done : option.set options before = .ok after) :
    before.Sets option.field false after := by
  cases option <;>
    simp only [MethodOption.set, bind_eq_ok, Except.ok.injEq] at done <;>
    obtain ⟨content, read, rfl⟩ := done
  case maxTimeMS => exact Operation.sets_optional .maxTimeMS (Document.readOption_natural read)
  case limit => exact Operation.sets_optional .limit (Document.readOption_natural read)
  case skip => exact Operation.sets_optional .skip (Document.readOption_natural read)
  case expireAfterSeconds =>
    exact Operation.sets_optional .expireAfterSeconds (Document.readOption_natural read)
  case size => exact Operation.sets_optional .size (Document.readOption_natural read)
  case maxDocuments =>
    exact Operation.sets_optional .maxDocuments (Document.readOption_natural read)
  all_goals exact Operation.sets_optional _ fun _ _ => trivial

/-! Modifiers -/

/-- The field that a modifier sets. -/
def Modifier.field : Modifier → Field
  | sort => .sort
  | limit => .limit
  | skip => .skip
  | projection => .projection
  | hint => .hint
  | max => .max
  | min => .min

/-- A modifier sets its field to a content that is always there. A limit may be any number; the
other contents are valid. -/
theorem Modifier.set_put {fresh : Fresh} {argument : Option Expr} {before after : Operation}
    {modifier : Modifier} (done : modifier.set fresh argument before = .ok after) :
    ∃ x, after = before.put modifier.field (some x) ∧
      (modifier = limit ∨ modifier.field.Valid x) := by
  cases modifier <;>
    simp only [Modifier.set, bind_eq_ok, Except.ok.injEq] at done <;>
    obtain ⟨content, read, rest⟩ := done
  case skip =>
    by_cases negative : content < 0
    · simp [negative] at rest
    · simp only [if_neg negative, Except.ok.injEq] at rest
      exact ⟨content, rest.symm, .inr (Int.not_lt.mp negative)⟩
  case limit => exact ⟨content, rest.symm, .inl rfl⟩
  all_goals exact ⟨content, rest.symm, .inr trivial⟩

end MongoShell
