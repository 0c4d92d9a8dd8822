import MongoShell.Operation.OfStatement
import MongoShell.Proofs.Method.Effect

/-! The shape of the operations that statements ask for. Each kind has fields of its own, some of
them required; an operation made by a call has no other field set, and what it has set is valid.
The invariant is carried through a call one argument at a time, and through a chain one call at a
time, for any registry. -/

namespace MongoShell

open Outcome

namespace OperationKind

/-- The fields that operations of a kind may have. -/
def fields : OperationKind → List Field
  | find | findOne =>
    [.filter, .projection, .hint, .max, .min, .maxTimeMS, .sort, .limit, .skip]
  | aggregate => [.pipeline, .hint, .maxTimeMS]
  | getCollectionInfos => [.filter, .nameOnly, .authorizedCollections]
  | countDocuments => [.filter, .hint, .limit, .skip, .maxTimeMS]
  | estimatedDocumentCount => [.maxTimeMS]
  | distinct => [.distinctField, .filter, .maxTimeMS]
  | insertOne => [.document, .bypassDocumentValidation]
  | insertMany => [.documents, .ordered, .bypassDocumentValidation]
  | updateOne | updateMany =>
    [.filter, .update, .upsert, .arrayFilters, .hint, .bypassDocumentValidation]
  | replaceOne => [.filter, .replacement, .upsert, .hint, .bypassDocumentValidation]
  | deleteOne | deleteMany => [.filter, .hint]
  | findOneAndUpdate =>
    [.filter, .update, .projection, .sort, .upsert, .returnDocument, .arrayFilters, .hint,
      .maxTimeMS, .bypassDocumentValidation]
  | findOneAndReplace =>
    [.filter, .replacement, .projection, .sort, .upsert, .returnDocument, .hint, .maxTimeMS,
      .bypassDocumentValidation]
  | findOneAndDelete => [.filter, .projection, .sort, .hint, .maxTimeMS]
  | createIndex => [.indexKeys, .indexName, .unique, .sparse, .expireAfterSeconds]
  | dropIndex | dropIndexes => [.index]
  | createCollection => [.capped, .size, .maxDocuments]
  | renameCollection => [.newName, .dropTarget]
  | unknown | showDatabases | showCollections | getCollectionNames | getIndexes | drop
  | dropDatabase => []

/-- The fields that operations of a kind always have. -/
def required : OperationKind → List Field
  | aggregate => [.pipeline]
  | distinct => [.distinctField]
  | insertOne => [.document]
  | insertMany => [.documents]
  | updateOne | updateMany | findOneAndUpdate => [.filter, .update]
  | replaceOne | findOneAndReplace => [.filter, .replacement]
  | deleteOne | deleteMany | findOneAndDelete => [.filter]
  | createIndex => [.indexKeys]
  | dropIndex => [.index]
  | renameCollection => [.newName]
  | _ => []

/-- Whether operations of a kind name a collection, an existing one or one to be made. -/
def isNamed (kind : OperationKind) : Bool :=
  kind.isCollectionScoped || kind == createCollection

end OperationKind

namespace Operation

structure WellFormed (op : Operation) : Prop where
  known : op.kind ≠ .unknown
  named : op.kind.isNamed = true → op.collection ≠ ""
  unnamed : op.kind.isNamed = false → op.collection = ""
  within : op.Within op.kind.fields
  required : ∀ f ∈ op.kind.required, (op.get f).isSome
  /-- A limit chained to a cursor may be any number. -/
  valid : ∀ f x, op.get f = some x → (f = .limit ∧ op.kind.isCursor = true) ∨ f.Valid x
  sized : op.capped = some true → op.size.isSome
  byName : op.kind = .dropIndexes → ∀ pattern, op.index ≠ some (.keys pattern)

/-! One call -/

/-- What the settings of a call have made of an operation that had no field set. A setting is a
field and whether it is required. -/
structure Filled (settings : List (Field × Bool)) (op : Operation) : Prop where
  unset : ∀ f, f ∉ settings.map Prod.fst → op.get f = none
  required : ∀ f, (f, true) ∈ settings → (op.get f).isSome
  valid : ∀ f x, op.get f = some x → f.Valid x

theorem filled_bare (kind : OperationKind) (collection : String) :
    Filled [] { kind, collection } where
  unset f _ := get_bare kind collection f
  required f member := by simp at member
  valid f x held := by simp at held

theorem Filled.withCollection {settings : List (Field × Bool)} {op : Operation}
    (filled : op.Filled settings) (collection : String) :
    { op with collection }.Filled settings where
  unset f unset := by rw [get_withCollection]; exact filled.unset f unset
  required f member := by rw [get_withCollection]; exact filled.required f member
  valid f x held := by rw [get_withCollection] at held; exact filled.valid f x held

/-- One more setting, of a field that has not been set before. -/
theorem Filled.sets {settings : List (Field × Bool)} {before after : Operation} {f : Field}
    {required : Bool} (filled : before.Filled settings) (sets : before.Sets f required after)
    (apart : f ∉ settings.map Prod.fst) : after.Filled (settings ++ [(f, required)]) := by
  obtain ⟨content, rfl, present, valid⟩ := sets
  refine ⟨fun g unset => ?_, fun g member => ?_, fun g x held => ?_⟩
  · simp only [List.map_append, List.map_cons, List.map_nil, List.mem_append,
      List.mem_singleton, not_or] at unset
    rw [get_put_other before content unset.2]
    exact filled.unset g unset.1
  · rcases List.mem_append.mp member with earlier | last
    · have other : g ≠ f := by
        rintro rfl
        exact apart (List.mem_map_of_mem earlier)
      rw [get_put_other before content other]
      exact filled.required g earlier
    · simp only [List.mem_singleton, Prod.mk.injEq] at last
      obtain ⟨rfl, rfl⟩ := last
      rw [get_put_same]
      exact present rfl
  · by_cases same : g = f
    · subst same
      rw [get_put_same] at held
      exact valid x held
    · rw [get_put_other before content same] at held
      exact filled.valid g x held

end Operation

theorem apart_of_nodup {earlier rest : List (Field × Bool)} {setting : Field × Bool}
    (distinct : ((earlier ++ setting :: rest).map Prod.fst).Nodup) :
    setting.1 ∉ earlier.map Prod.fst := by
  intro member
  rw [List.map_append] at distinct
  exact (List.nodup_append.mp distinct).2.2 setting.1 member setting.1 (by simp) rfl

namespace Parameter

/-- The settings that a list of parameters makes. -/
def settings (parameters : List Parameter) : List (Field × Bool) :=
  parameters.filterMap fun parameter => parameter.field?.map (·, parameter.isRequired)

/-- Setting parameters keeps the kind, and the collection too unless it is one of them. -/
theorem setAll_collection {fresh : Fresh} {parameters : List Parameter} {arguments : List Expr}
    {before after : Operation} (done : setAll fresh parameters arguments before = .ok after) :
    after.kind = before.kind ∧
      (if collectionName ∈ parameters then after.collection ≠ ""
        else after.collection = before.collection) := by
  induction parameters generalizing arguments before with
  | nil => cases done; simp
  | cons parameter rest ih =>
    obtain ⟨middle, set, others⟩ := (bind_eq_ok _ _ _).mp done
    obtain ⟨kind, collection⟩ := ih others
    cases target : parameter.field? with
    | some f =>
      obtain ⟨content, rfl, -⟩ := set_sets target set
      have ordinary : parameter ≠ collectionName := by rintro rfl; cases target
      simpa [ordinary.symm] using And.intro kind collection
    | none =>
      have naming : parameter = collectionName := by
        cases parameter <;> first | rfl | cases target
      subst naming
      obtain ⟨name, nonempty, rfl⟩ := set_collectionName set
      refine ⟨kind, ?_⟩
      by_cases again : collectionName ∈ rest
      · simpa [again] using collection
      · have kept : after.collection = name := by simpa [again] using collection
        simpa [kept] using nonempty

theorem setAll_filled {fresh : Fresh} {parameters : List Parameter} {arguments : List Expr}
    {before after : Operation} {earlier : List (Field × Bool)}
    (done : setAll fresh parameters arguments before = .ok after) (filled : before.Filled earlier)
    (distinct : ((earlier ++ settings parameters).map Prod.fst).Nodup) :
    after.Filled (earlier ++ settings parameters) := by
  induction parameters generalizing arguments before earlier with
  | nil => cases done; simpa [settings] using filled
  | cons parameter rest ih =>
    obtain ⟨middle, set, others⟩ := (bind_eq_ok _ _ _).mp done
    cases target : parameter.field? with
    | some f =>
      have split : settings (parameter :: rest) = (f, parameter.isRequired) :: settings rest := by
        simp [settings, target]
      rw [split] at distinct ⊢
      have apart := apart_of_nodup distinct
      rw [List.append_cons] at distinct ⊢
      exact ih others (filled.sets (set_sets target set) apart) distinct
    | none =>
      have naming : parameter = collectionName := by
        cases parameter <;> first | rfl | cases target
      subst naming
      obtain ⟨name, -, rfl⟩ := set_collectionName set
      exact ih others (filled.withCollection name) distinct

end Parameter

namespace MethodOption

def settings (options : List MethodOption) : List (Field × Bool) :=
  options.map fun option => (option.field, false)

theorem foldlM_kind {given : Document} {options : List MethodOption} {before after : Operation}
    (done : options.foldlM (set given) before = .ok after) :
    after.kind = before.kind ∧ after.collection = before.collection := by
  induction options generalizing before with
  | nil => cases done; exact ⟨rfl, rfl⟩
  | cons option rest ih =>
    rw [List.foldlM_cons] at done
    obtain ⟨middle, set, others⟩ := (bind_eq_ok _ _ _).mp done
    obtain ⟨content, rfl, -⟩ := set_sets set
    simpa using ih others

theorem foldlM_filled {given : Document} {options : List MethodOption} {before after : Operation}
    {earlier : List (Field × Bool)} (done : options.foldlM (set given) before = .ok after)
    (filled : before.Filled earlier)
    (distinct : ((earlier ++ settings options).map Prod.fst).Nodup) :
    after.Filled (earlier ++ settings options) := by
  induction options generalizing before earlier with
  | nil => cases done; simpa [settings] using filled
  | cons option rest ih =>
    rw [List.foldlM_cons] at done
    obtain ⟨middle, set, others⟩ := (bind_eq_ok _ _ _).mp done
    rw [settings, List.map_cons] at distinct ⊢
    have apart := apart_of_nodup distinct
    rw [List.append_cons] at distinct ⊢
    exact ih others (filled.sets (set_sets set) apart) distinct

theorem setAll_eq_ok {allowed : List MethodOption} {given : Document} {before after : Operation}
    (done : setAll allowed given before = .ok after) :
    allowed.foldlM (set given) before = .ok after := by
  unfold setAll at done
  split at done
  · cases done
  · exact (mapError_eq_ok _ _ _).mp done

end MethodOption

namespace Method

/-- The settings that a call of a method makes. -/
def settings (method : Method) : List (Field × Bool) :=
  Parameter.settings method.parameters ++ MethodOption.settings (method.options.getD [])

/-- What the tables of methods have to keep to: no field is set twice, none is set that the kind
does not have, and all that the kind requires are set by required parameters. -/
def Regular (method : Method) : Prop :=
  (method.settings.map Prod.fst).Nodup ∧
    (∀ f ∈ method.settings.map Prod.fst, f ∈ method.kind.fields) ∧
    (∀ f ∈ method.kind.required, (f, true) ∈ method.settings) ∧ method.kind ≠ .unknown

instance (method : Method) : Decidable method.Regular := by
  unfold Regular; infer_instance

theorem ofCollection_regular : ∀ method ∈ ofCollection,
    method.Regular ∧ method.kind.isCollectionScoped = true ∧
      .collectionName ∉ method.parameters := by
  decide

theorem ofCommand_regular (command : DatabaseCommand) :
    (ofCommand command).Regular ∧ (ofCommand command).kind.isCollectionScoped = false ∧
      ((ofCommand command).kind.isNamed = true ↔
        .collectionName ∈ (ofCommand command).parameters) := by
  cases command <;> decide

theorem setOptions_filled {fresh : Fresh} {method : Method} {arguments : List Expr}
    {before after : Operation} {earlier : List (Field × Bool)}
    (done : method.setOptions fresh arguments before = .ok after) (filled : before.Filled earlier)
    (distinct : ((earlier ++ MethodOption.settings (method.options.getD [])).map Prod.fst).Nodup) :
    after.Filled (earlier ++ MethodOption.settings (method.options.getD [])) ∧
      after.collection = before.collection := by
  unfold setOptions at done
  cases taken : method.options with
  | none =>
    rw [taken] at done
    cases done
    exact ⟨by simpa [MethodOption.settings] using filled, rfl⟩
  | some allowed =>
    rw [taken] at done distinct
    obtain ⟨options, _, set⟩ := (bind_eq_ok _ _ _).mp done
    have run := MethodOption.setAll_eq_ok set
    exact ⟨MethodOption.foldlM_filled run filled distinct, (MethodOption.foldlM_kind run).2⟩

/-- What a call makes of an operation that has no more than a collection. -/
theorem call_filled {fresh : Fresh} {method : Method} {arguments : List Expr}
    {start : OperationKind}
    {collection : String} {op : Operation} (regular : method.Regular)
    (done : method.call fresh arguments { kind := start, collection } = .ok op) :
    op.kind = method.kind ∧ op.Filled method.settings ∧
      (if .collectionName ∈ method.parameters then op.collection ≠ ""
        else op.collection = collection) ∧
      (op.capped = some true → op.size.isSome) := by
  simp only [call, bind_eq_ok, Except.ok.injEq] at done
  obtain ⟨_, _, positioned, parameters, complete, options, _, capped, rfl⟩ := done
  have distinct : ((Parameter.settings method.parameters).map Prod.fst).Nodup := by
    have both := regular.1
    rw [settings, List.map_append] at both
    exact (List.nodup_append.mp both).1
  have first := Parameter.setAll_filled parameters (Operation.filled_bare start collection)
    distinct
  have second := setOptions_filled options first regular.1
  have address := (Parameter.setAll_collection parameters).2
  refine ⟨rfl, ⟨fun f unset => ?_, fun f member => ?_, fun f x held => ?_⟩, ?_, fun limited => ?_⟩
  · rw [Operation.get_withKind]
    exact second.1.unset f unset
  · rw [Operation.get_withKind]
    exact second.1.required f member
  · rw [Operation.get_withKind] at held
    exact second.1.valid f x held
  · simpa [second.2] using address
  · simp only [checkCapped] at capped
    split at capped
    · cases capped
    · rename_i sized
      rw [not_and] at sized
      exact Option.isSome_iff_ne_none.mpr (sized limited)

/-- Several indexes are dropped by a method that has but one parameter, for the name. -/
theorem ofCollection_dropIndexes : ∀ method ∈ ofCollection, method.kind = .dropIndexes →
    method.parameters = [.indexName] ∧ method.options = none := by
  decide

theorem call_byName {fresh : Fresh} {method : Method} {arguments : List Expr}
    {before after : Operation} (parameters : method.parameters = [.indexName])
    (options : method.options = none) (done : method.call fresh arguments before = .ok after)
    (pattern : Document) : after.index ≠ some (.keys pattern) := by
  simp only [call, parameters, setOptions, options, Parameter.setAll, Parameter.set, bind_eq_ok,
    Except.ok.injEq] at done
  obtain ⟨_, _, _, ⟨_, ⟨name, _, rfl⟩, rfl⟩, _, rfl, _, _, rfl⟩ := done
  cases name <;> simp

theorem call_wellFormed {fresh : Fresh} {method : Method} {arguments : List Expr}
    {start : OperationKind} {collection : String} {op : Operation} (regular : method.Regular)
    (done : method.call fresh arguments { kind := start, collection } = .ok op)
    (named : method.kind.isNamed = true → op.collection ≠ "")
    (unnamed : method.kind.isNamed = false → op.collection = "")
    (byName : method.kind = .dropIndexes → ∀ pattern, op.index ≠ some (.keys pattern)) :
    op.WellFormed := by
  obtain ⟨kind, filled, -, sized⟩ := call_filled regular done
  obtain ⟨-, own, required, known⟩ := regular
  rw [← kind] at named unnamed byName own required known
  exact {
    known, named, unnamed, sized, byName
    within := fun f foreign => filled.unset f (fun member => foreign (own f member))
    required := fun f member => filled.required f (required f member)
    valid := fun f x held => .inr (filled.valid f x held) }

end Method

/-! Chains and statements -/

namespace CollectionChain

theorem firstOperation_wellFormed {registry : Registry} {fresh : Fresh} {chain : CollectionChain}
    {op : Operation} (done : chain.firstOperation registry fresh = .ok op) : op.WellFormed := by
  simp only [firstOperation, bind_eq_ok] at done
  obtain ⟨_, _, made, applied, checked⟩ := done
  split at checked
  · cases checked
  · rename_i addressed
    cases checked
    cases found : Method.ofName? chain.first.name with
    | none => rw [found] at applied; cases applied
    | some method =>
      rw [found] at applied
      have called := (mapError_eq_ok _ _ _).mp applied
      obtain ⟨regular, acting, unnaming⟩ :=
        Method.ofCollection_regular method (List.mem_of_find?_eq_some found)
      obtain ⟨kind, -, collection, -⟩ := Method.call_filled regular called
      rw [if_neg unnaming] at collection
      rw [kind] at addressed
      refine Method.call_wellFormed regular called (fun _ => ?_) (fun unnamed => ?_)
        fun dropping => ?_
      · rw [collection]
        exact fun empty => addressed ⟨acting, empty⟩
      · simp [OperationKind.isNamed, acting] at unnamed
      · obtain ⟨parameters, options⟩ :=
          Method.ofCollection_dropIndexes method (List.mem_of_find?_eq_some found) dropping
        exact Method.call_byName parameters options called

theorem field_mem_of_isCursor {kind : OperationKind} (cursor : kind.isCursor = true)
    (modifier : Modifier) : modifier.field ∈ kind.fields ∧ kind.required = [] := by
  cases kind <;> cases cursor <;> cases modifier <;> decide

/-- A modifier sets a field that every cursor has. -/
theorem put_modifier_wellFormed {op : Operation} {modifier : Modifier} {x : modifier.field.Content}
    (wellFormed : op.WellFormed) (cursor : op.kind.isCursor = true)
    (checked : modifier = .limit ∨ modifier.field.Valid x) :
    (op.put modifier.field (some x)).WellFormed := by
  obtain ⟨own, free⟩ := field_mem_of_isCursor cursor modifier
  exact {
    known := by rw [Operation.kind_put]; exact wellFormed.known
    named := by rw [Operation.kind_put, Operation.collection_put]; exact wellFormed.named
    unnamed := by rw [Operation.kind_put, Operation.collection_put]; exact wellFormed.unnamed
    within := by
      rw [Operation.kind_put]
      exact wellFormed.within.put (some x) own
    required := fun f member => by
      rw [Operation.kind_put, free] at member
      cases member
    valid := fun f y held => by
      rw [Operation.kind_put]
      by_cases same : f = modifier.field
      · subst same
        rw [Operation.get_put_same, Option.some.injEq] at held
        subst held
        rcases checked with rfl | valid
        · exact .inl ⟨rfl, cursor⟩
        · exact .inr valid
      · rw [Operation.get_put_other op _ same] at held
        exact wellFormed.valid f y held
    sized := fun capped => by
      cases modifier <;> exact wellFormed.sized capped
    byName := fun dropping => by
      rw [Operation.kind_put] at dropping
      rw [dropping] at cursor
      cases cursor }

/-- A further call of a chain keeps the shape: it has to be a modifier of a cursor. -/
theorem nextOperation_wellFormed {registry : Registry} {fresh : Fresh} {before after : Operation}
    {call : MethodCall} (wellFormed : before.WellFormed)
    (done : nextOperation registry fresh before call = .ok after) : after.WellFormed := by
  unfold nextOperation at done
  split at done
  · rename_i cursor
    obtain ⟨_, _, modified⟩ := (bind_eq_ok _ _ _).mp done
    obtain ⟨_, _, set⟩ := (bind_eq_ok _ _ _).mp modified
    split at set
    · obtain ⟨x, rfl, checked⟩ := Modifier.set_put ((mapError_eq_ok _ _ _).mp set)
      exact put_modifier_wellFormed wellFormed cursor checked
    · cases set
  · obtain ⟨_, _, refused⟩ := (bind_eq_ok _ _ _).mp done
    cases refused

theorem operation_wellFormed {registry : Registry} {fresh : Fresh} {chain : CollectionChain}
    {op : Operation} (done : chain.operation registry fresh = .ok op) : op.WellFormed := by
  obtain ⟨first, started, run⟩ := (bind_eq_ok _ _ _).mp done
  exact foldlM_invariant (fun _ _ _ held next => nextOperation_wellFormed held next)
    (firstOperation_wellFormed started) run

end CollectionChain

theorem DatabaseStatement.operation_wellFormed {registry : Registry} {fresh : Fresh}
    {statement : DatabaseStatement} {op : Operation}
    (done : statement.operation registry fresh = .ok op) : op.WellFormed := by
  cases statement with
  | collection chain => exact CollectionChain.operation_wellFormed done
  | method call =>
    obtain ⟨_, _, refused⟩ := (bind_eq_ok _ _ _).mp done
    cases refused
  | command handled call =>
    obtain ⟨_, _, applied⟩ := (bind_eq_ok _ _ _).mp done
    have called := (mapError_eq_ok _ _ _).mp applied
    obtain ⟨regular, -, naming⟩ := Method.ofCommand_regular handled
    obtain ⟨-, -, collection, -⟩ := Method.call_filled regular called
    refine Method.call_wellFormed regular called (fun named => ?_) (fun unnamed => ?_)
      fun dropping => ?_
    · rwa [if_pos (naming.mp named)] at collection
    · rwa [if_neg (fun member => by simp [naming.mpr member] at unnamed)] at collection
    · cases handled <;> cases dropping

theorem ShellCommand.operation_wellFormed {command : ShellCommand} {op : Operation}
    (done : command.operation = .ok op) : op.WellFormed := by
  cases command with
  | other text => cases done
  | _ =>
    cases done
    exact {
      known := by decide
      named := by decide
      unnamed := fun _ => rfl
      within := fun f _ => Operation.get_bare _ _ f
      required := by decide
      valid := fun f x held => by rw [Operation.get_bare] at held; cases held
      sized := by decide
      byName := nofun }

/-- Every operation that a statement asks for has the shape of its kind, whatever the registry. -/
theorem Statement.operation_wellFormed {registry : Registry} {fresh : Fresh}
    {statement : Statement} {op : Operation}
    (done : statement.operation registry fresh = .ok op) : op.WellFormed := by
  unfold operation at done
  split at done
  · exact ShellCommand.operation_wellFormed done
  · exact DatabaseStatement.operation_wellFormed done
  · cases done

theorem Operation.ofSource_wellFormed {fresh : Fresh} {source : String} {op : Operation}
    (done : ofSource fresh source = .ok op) : op.WellFormed := by
  unfold ofSource at done
  split at done
  · cases done
  · exact Statement.operation_wellFormed done

end MongoShell
