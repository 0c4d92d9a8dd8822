import MongoShell.Proofs.Method.Effect

/-! The types of option values. Each method has a table of the keys that its options document may
hold, with the type of the value that counts under each. A call is translated only if its document
keeps to the table; the one value that is not looked at is a `returnNewDocument` beside a
`returnDocument`, which takes its place. -/

namespace MongoShell

open Outcome

inductive OptionType where
  /-- A whole number that is not negative. -/
  | natural
  | boolean
  | string
  /-- Which state of a document is returned, by name. -/
  | state
  | document
  /-- An array of documents. -/
  | documents
  /-- An index, by its name or by its keys. -/
  | index
deriving DecidableEq, Repr

/-- The values of a type. -/
def OptionType.Admits : OptionType → Value → Prop
  | natural, value => ∃ n, value.integer? = some n ∧ 0 ≤ n
  | boolean, value => ∃ b, value = .boolean b
  | string, value => ∃ text, value = .string text
  | state, value => value = .string "before" ∨ value = .string "after"
  | document, value => ∃ entries, value = .document entries
  | documents, value =>
    ∃ items, value = .array items ∧ ∀ item ∈ items, ∃ entries, item = .document entries
  | index, value => (∃ name, value = .string name) ∨ ∃ keys, value = .document keys

/-- The keys of the options document of each method, with the types of their values. -/
def OperationKind.optionTypes : OperationKind → List (String × OptionType)
  | find | findOne =>
    [("hint", .index), ("max", .document), ("min", .document), ("maxTimeMS", .natural)]
  | countDocuments =>
    [("hint", .index), ("limit", .natural), ("skip", .natural), ("maxTimeMS", .natural)]
  | estimatedDocumentCount | distinct => [("maxTimeMS", .natural)]
  | aggregate => [("hint", .index), ("maxTimeMS", .natural)]
  | insertOne => [("bypassDocumentValidation", .boolean)]
  | insertMany => [("ordered", .boolean), ("bypassDocumentValidation", .boolean)]
  | updateOne | updateMany =>
    [("upsert", .boolean), ("arrayFilters", .documents), ("hint", .index),
      ("bypassDocumentValidation", .boolean)]
  | replaceOne =>
    [("upsert", .boolean), ("hint", .index), ("bypassDocumentValidation", .boolean)]
  | deleteOne | deleteMany => [("hint", .index)]
  | findOneAndUpdate =>
    [("projection", .document), ("sort", .document), ("upsert", .boolean),
      ("returnDocument", .state), ("returnNewDocument", .boolean), ("arrayFilters", .documents),
      ("hint", .index), ("maxTimeMS", .natural), ("bypassDocumentValidation", .boolean)]
  | findOneAndReplace =>
    [("projection", .document), ("sort", .document), ("upsert", .boolean),
      ("returnDocument", .state), ("returnNewDocument", .boolean), ("hint", .index),
      ("maxTimeMS", .natural), ("bypassDocumentValidation", .boolean)]
  | findOneAndDelete =>
    [("projection", .document), ("sort", .document), ("hint", .index), ("maxTimeMS", .natural)]
  | createIndex =>
    [("name", .string), ("unique", .boolean), ("sparse", .boolean),
      ("expireAfterSeconds", .natural)]
  | getCollectionInfos => [("nameOnly", .boolean), ("authorizedCollections", .boolean)]
  | createCollection => [("capped", .boolean), ("size", .natural), ("max", .natural)]
  | _ => []

/-! What a reading says of the value that is read -/

section

variable {what : String} {value : Value}

theorem Value.asNatural_admits {n : Int} (done : value.asNatural what = .ok n) :
    OptionType.natural.Admits value := by
  obtain ⟨whole, read, checked⟩ := (bind_eq_ok _ _ _).mp done
  unfold asInteger at read
  cases held : value.integer? with
  | none =>
    rw [held] at read
    cases read
  | some m =>
    rw [held] at read
    cases read
    split at checked
    · cases checked
    · rename_i nonneg
      exact ⟨whole, held, Int.not_lt.mp nonneg⟩

theorem Value.asBoolean_admits {b : Bool} (done : value.asBoolean what = .ok b) :
    OptionType.boolean.Admits value := by
  unfold asBoolean at done
  split at done
  · exact ⟨_, rfl⟩
  · cases done

theorem Value.asString_eq_ok {text : String} (done : value.asString what = .ok text) :
    value = .string text := by
  unfold asString at done
  split at done
  · cases done
    rfl
  · cases done

theorem Value.asDocument_eq_ok {entries : Document} (done : value.asDocument what = .ok entries) :
    value = .document entries := by
  unfold asDocument at done
  split at done
  · cases done
    rfl
  · cases done

theorem Value.asDocumentItems_admits {start : Nat} {items : List Value} {documents : List Document}
    (done : Value.asDocumentItems what start items = .ok documents) :
    ∀ item ∈ items, ∃ entries, item = .document entries := by
  induction items generalizing start documents with
  | nil => exact nofun
  | cons item items ih =>
    obtain ⟨entries, first, done⟩ := (bind_eq_ok _ _ _).mp done
    obtain ⟨others, rest, -⟩ := (bind_eq_ok _ _ _).mp done
    exact List.forall_mem_cons.mpr ⟨⟨entries, asDocument_eq_ok first⟩, ih rest⟩

theorem Value.asDocuments_admits {documents : List Document}
    (done : value.asDocuments what = .ok documents) : OptionType.documents.Admits value := by
  unfold asDocuments at done
  split at done
  · exact ⟨_, rfl, asDocumentItems_admits done⟩
  · cases done

theorem Value.asIndex_admits {index : IndexSelector} (done : value.asIndex what = .ok index) :
    OptionType.index.Admits value := by
  unfold asIndex at done
  split at done
  · exact .inl ⟨_, rfl⟩
  · exact .inr ⟨_, rfl⟩
  · cases done

end

theorem ReturnDocument.ofName_admits {text : String} {state : ReturnDocument}
    (done : ofName text = .ok state) : OptionType.state.Admits (.string text) := by
  unfold ofName at done
  split at done
  · rename_i before
    exact .inl (congrArg _ before)
  · split at done
    · rename_i after
      exact .inr (congrArg _ after)
    · cases done

/-! Options -/

namespace Document

variable {options : Document} {key : String} {value : Value}

/-- The value under a key that an option is read from has been read. -/
theorem readOption_given {α : Type} {read : String → Value → Except ArgumentFault α}
    {content : Option α} (done : options.readOption key read = .ok content)
    (given : options.option? key = some value) :
    ∃ x, read ("option " ++ key) value = .ok x ∧ content = some x := by
  rw [readOption, given] at done
  obtain ⟨x, read, same⟩ := (map_eq_ok _ _ _).mp done
  exact ⟨x, read, same.symm⟩

/-- A key whose value is not looked at, for another that takes its place. -/
def Overruled (options : Document) (key : String) : Prop :=
  key = "returnNewDocument" ∧ (options.option? "returnDocument").isSome

end Document

theorem ReturnDocument.ofOptions_admits {options : Document} {state : Option ReturnDocument}
    (done : ofOptions options = .ok state) {value : Value} :
    (options.option? "returnDocument" = some value → OptionType.state.Admits value) ∧
    (options.option? "returnNewDocument" = some value →
      options.Overruled "returnNewDocument" ∨ OptionType.boolean.Admits value) := by
  obtain ⟨content, read, done⟩ := (bind_eq_ok _ _ _).mp done
  refine ⟨fun given => ?_, fun given => ?_⟩
  · obtain ⟨text, asText, rfl⟩ := Document.readOption_given read given
    obtain ⟨state, named, -⟩ := (map_eq_ok _ _ _).mp done
    rw [Value.asString_eq_ok asText]
    exact ofName_admits named
  · cases named : options.option? "returnDocument" with
    | some name => exact .inl ⟨rfl, Option.isSome_of_eq_some named⟩
    | none =>
      rw [Document.readOption, named] at read
      cases read
      obtain ⟨new, readNew, -⟩ := (bind_eq_ok _ _ _).mp done
      obtain ⟨b, asTruth, -⟩ := Document.readOption_given readNew given
      exact .inr (Value.asBoolean_admits asTruth)

namespace MethodOption

/-- The keys that an option is given under, with the types of their values. -/
def types : MethodOption → List (String × OptionType)
  | hint => [("hint", .index)]
  | max => [("max", .document)]
  | min => [("min", .document)]
  | maxTimeMS => [("maxTimeMS", .natural)]
  | limit => [("limit", .natural)]
  | skip => [("skip", .natural)]
  | projection => [("projection", .document)]
  | sort => [("sort", .document)]
  | upsert => [("upsert", .boolean)]
  | ordered => [("ordered", .boolean)]
  | bypassDocumentValidation => [("bypassDocumentValidation", .boolean)]
  | arrayFilters => [("arrayFilters", .documents)]
  | returnDocument => [("returnDocument", .state), ("returnNewDocument", .boolean)]
  | name => [("name", .string)]
  | unique => [("unique", .boolean)]
  | sparse => [("sparse", .boolean)]
  | expireAfterSeconds => [("expireAfterSeconds", .natural)]
  | nameOnly => [("nameOnly", .boolean)]
  | authorizedCollections => [("authorizedCollections", .boolean)]
  | capped => [("capped", .boolean)]
  | size => [("size", .natural)]
  | maxDocuments => [("max", .natural)]

theorem map_fst_types (option : MethodOption) : option.types.map Prod.fst = option.keys := by
  cases option <;> rfl

/-- An option that is set has a value of its type. -/
theorem set_typed {options : Document} {before after : Operation} {option : MethodOption}
    (done : option.set options before = .ok after) {key : String} {type : OptionType}
    (member : (key, type) ∈ option.types) {value : Value}
    (given : options.option? key = some value) : options.Overruled key ∨ type.Admits value := by
  cases option <;>
    simp only [set, bind_eq_ok, Except.ok.injEq] at done <;>
    obtain ⟨content, read, -⟩ := done <;>
    simp only [types, List.mem_cons, List.not_mem_nil, or_false, Prod.mk.injEq] at member
  case returnDocument =>
    rcases member with ⟨rfl, rfl⟩ | ⟨rfl, rfl⟩
    · exact .inr ((ReturnDocument.ofOptions_admits read).1 given)
    · exact (ReturnDocument.ofOptions_admits read).2 given
  all_goals
    obtain ⟨rfl, rfl⟩ := member
    obtain ⟨x, passed, -⟩ := Document.readOption_given read given
    apply Or.inr
  case hint => exact Value.asIndex_admits passed
  case arrayFilters => exact Value.asDocuments_admits passed
  case name => exact ⟨x, Value.asString_eq_ok passed⟩
  case max | min | projection | sort => exact ⟨x, Value.asDocument_eq_ok passed⟩
  case maxTimeMS | limit | skip | expireAfterSeconds | size | maxDocuments =>
    exact Value.asNatural_admits passed
  all_goals exact Value.asBoolean_admits passed

end MethodOption

/-- A document keeps to a table: it has no other keys, and what counts under a key of the table is
of its type, unless it is not looked at. -/
structure Document.KeepsTo (options : Document) (table : List (String × OptionType)) : Prop where
  known : ∀ key ∈ options.keys, key ∈ table.map Prod.fst
  typed : ∀ key type, (key, type) ∈ table → ∀ value, options.option? key = some value →
    options.Overruled key ∨ type.Admits value

theorem MethodOption.setAll_keepsTo {allowed : List MethodOption} {options : Document}
    {before after : Operation} (done : setAll allowed options before = .ok after) :
    options.KeepsTo (allowed.flatMap types) := by
  have keys : (allowed.flatMap types).map Prod.fst = allowed.flatMap MethodOption.keys := by
    simp only [List.map_flatMap, map_fst_types]
  unfold setAll at done
  split at done
  · cases done
  · rename_i noOther
    refine ⟨fun key member => ?_, fun key type member value given => ?_⟩
    · rw [keys]
      simpa using List.find?_eq_none.mp noOther key member
    · obtain ⟨option, among, own⟩ := List.mem_flatMap.mp member
      obtain ⟨middle, next, set⟩ := foldlM_each ((mapError_eq_ok _ _ _).mp done) option among
      exact set_typed set own given

/-! Methods -/

/-- The document that an argument gives; none gives the empty one, and so does a null. -/
def Argument.Gives (fresh : Fresh) (argument : Option Expr) (options : Document) : Prop :=
  match argument with
  | none => options = []
  | some e => Value.ofExpr fresh e = .ok (.document options) ∨
      Value.ofExpr fresh e = .ok .null ∧ options = []

theorem Argument.gives_of_read {fresh : Fresh} {argument : Option Expr} {what : String}
    {options : Option Document}
    (done : read fresh argument (readGiven (Value.asDocument what)) = .ok options) :
    Gives fresh argument (options.getD []) := by
  obtain ⟨given, valued, asked⟩ := (bind_eq_ok _ _ _).mp done
  have asked := (mapError_eq_ok _ _ _).mp asked
  unfold value? at valued
  cases argument with
  | none =>
    cases valued
    cases asked
    rfl
  | some e =>
    cases converted : Value.ofExpr fresh e with
    | error fault => simp [converted] at valued
    | ok value =>
      simp only [converted, Except.ok.injEq] at valued
      subst valued
      by_cases null : value.isNull = true
      · rw [if_pos null] at asked
        cases asked
        have absent : value = .null := by
          unfold Value.isNull at null
          split at null
          · rfl
          · cases null
        exact .inr ⟨absent ▸ converted, rfl⟩
      · rw [if_neg null] at asked
        obtain ⟨entries, isDocument, rfl⟩ := (map_eq_ok _ _ _).mp asked
        exact .inl (Value.asDocument_eq_ok isDocument ▸ converted)

namespace Method

theorem ofCollection_optionTypes : ∀ method ∈ ofCollection,
    method.kind.optionTypes = (method.options.getD []).flatMap MethodOption.types := by
  decide

theorem ofCommand_optionTypes (command : DatabaseCommand) :
    (ofCommand command).kind.optionTypes =
      ((ofCommand command).options.getD []).flatMap MethodOption.types := by
  cases command <;> rfl

/-- A call that has an operation gives an options document that keeps to the table of its method. -/
theorem call_keepsTo {fresh : Fresh} {method : Method} {allowed : List MethodOption}
    {arguments : List Expr} {before after : Operation} (takes : method.options = some allowed)
    (table : method.kind.optionTypes = (method.options.getD []).flatMap MethodOption.types)
    (done : method.call fresh arguments before = .ok after) :
    ∃ options, Argument.Gives fresh (arguments[method.parameters.length]?) options ∧
      options.KeepsTo method.kind.optionTypes := by
  simp only [call, bind_eq_ok] at done
  obtain ⟨_, _, positioned, -, complete, set, -⟩ := done
  rw [setOptions, takes] at set
  obtain ⟨options, read, all⟩ := (bind_eq_ok _ _ _).mp set
  rw [table, takes]
  exact ⟨_, Argument.gives_of_read read, MethodOption.setAll_keepsTo all⟩

end Method

end MongoShell
