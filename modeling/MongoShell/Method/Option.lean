import MongoShell.Method.Argument

/-!
Options of methods: entries of an options document, each under its key and of its type. The last
entry under a key counts, and a null counts as no entry.
-/

namespace MongoShell

inductive MethodOption where
  | hint
  | max
  | min
  | maxTimeMS
  | limit
  | skip
  | projection
  | sort
  | upsert
  | ordered
  | bypassDocumentValidation
  | arrayFilters
  | returnDocument
  | name
  | unique
  | sparse
  | expireAfterSeconds
  | nameOnly
  | authorizedCollections
  | capped
  | size
  | maxDocuments
deriving DecidableEq, Repr

/-- The value that counts under a key. -/
def Document.option? (key : String) (document : Document) : Option Value :=
  match document.get? key with
  | some value => if value.isNull then none else some value
  | none => none

/-- Read the option under a key; messages name it by its key. -/
def Document.readOption {α : Type} (key : String) (read : String → Value → Except ArgumentFault α)
    (document : Document) : Except ArgumentFault (Option α) :=
  readGiven (read ("option " ++ key)) (document.option? key)

namespace ReturnDocument

def ofName (text : String) : Except ArgumentFault ReturnDocument :=
  if text = "before" then .ok before
  else if text = "after" then .ok after
  else .error (.badReturnDocument text)

/-- The state that options ask for: by name under `returnDocument`, else by a truth value under
`returnNewDocument`, which is not looked at where there is a name. -/
def ofOptions (options : Document) : Except ArgumentFault (Option ReturnDocument) := do
  match ← options.readOption "returnDocument" Value.asString with
  | some text => (ofName text).map some
  | none =>
    let new ← options.readOption "returnNewDocument" Value.asBoolean
    .ok (new.map fun new => if new then after else before)

end ReturnDocument

namespace MethodOption

/-- The keys that an option is given under. -/
def keys : MethodOption → List String
  | hint => ["hint"]
  | max => ["max"]
  | min => ["min"]
  | maxTimeMS => ["maxTimeMS"]
  | limit => ["limit"]
  | skip => ["skip"]
  | projection => ["projection"]
  | sort => ["sort"]
  | upsert => ["upsert"]
  | ordered => ["ordered"]
  | bypassDocumentValidation => ["bypassDocumentValidation"]
  | arrayFilters => ["arrayFilters"]
  | returnDocument => ["returnDocument", "returnNewDocument"]
  | name => ["name"]
  | unique => ["unique"]
  | sparse => ["sparse"]
  | expireAfterSeconds => ["expireAfterSeconds"]
  | nameOnly => ["nameOnly"]
  | authorizedCollections => ["authorizedCollections"]
  | capped => ["capped"]
  | size => ["size"]
  | maxDocuments => ["max"]

/-- Set the field that an option stands for. -/
def set (options : Document) (op : Operation) : MethodOption → Except ArgumentFault Operation
  | hint => do
    let hint ← options.readOption "hint" Value.asIndex
    .ok { op with hint }
  | max => do
    let max ← options.readOption "max" Value.asDocument
    .ok { op with max }
  | min => do
    let min ← options.readOption "min" Value.asDocument
    .ok { op with min }
  | maxTimeMS => do
    let maxTimeMS ← options.readOption "maxTimeMS" Value.asNatural
    .ok { op with maxTimeMS }
  | limit => do
    let limit ← options.readOption "limit" Value.asNatural
    .ok { op with limit }
  | skip => do
    let skip ← options.readOption "skip" Value.asNatural
    .ok { op with skip }
  | projection => do
    let projection ← options.readOption "projection" Value.asDocument
    .ok { op with projection }
  | sort => do
    let sort ← options.readOption "sort" Value.asDocument
    .ok { op with sort }
  | upsert => do
    let upsert ← options.readOption "upsert" Value.asBoolean
    .ok { op with upsert }
  | ordered => do
    let ordered ← options.readOption "ordered" Value.asBoolean
    .ok { op with ordered }
  | bypassDocumentValidation => do
    let bypassDocumentValidation ← options.readOption "bypassDocumentValidation" Value.asBoolean
    .ok { op with bypassDocumentValidation }
  | arrayFilters => do
    let arrayFilters ← options.readOption "arrayFilters" Value.asDocuments
    .ok { op with arrayFilters }
  | returnDocument => do
    let returnDocument ← ReturnDocument.ofOptions options
    .ok { op with returnDocument }
  | name => do
    let indexName ← options.readOption "name" Value.asString
    .ok { op with indexName }
  | unique => do
    let unique ← options.readOption "unique" Value.asBoolean
    .ok { op with unique }
  | sparse => do
    let sparse ← options.readOption "sparse" Value.asBoolean
    .ok { op with sparse }
  | expireAfterSeconds => do
    let expireAfterSeconds ← options.readOption "expireAfterSeconds" Value.asNatural
    .ok { op with expireAfterSeconds }
  | nameOnly => do
    let nameOnly ← options.readOption "nameOnly" Value.asBoolean
    .ok { op with nameOnly }
  | authorizedCollections => do
    let authorizedCollections ← options.readOption "authorizedCollections" Value.asBoolean
    .ok { op with authorizedCollections }
  | capped => do
    let capped ← options.readOption "capped" Value.asBoolean
    .ok { op with capped }
  | size => do
    let size ← options.readOption "size" Value.asNatural
    .ok { op with size }
  | maxDocuments => do
    let maxDocuments ← options.readOption "max" Value.asNatural
    .ok { op with maxDocuments }

/-- Set the fields of some options from an options document, which may hold no other keys. -/
def setAll (allowed : List MethodOption) (options : Document) (op : Operation) :
    Except CallFault Operation :=
  match options.keys.find? (! (allowed.flatMap keys).contains ·) with
  | some key => .error (.unsupportedOption key)
  | none => (allowed.foldlM (set options) op).mapError .argument

end MethodOption

end MongoShell
