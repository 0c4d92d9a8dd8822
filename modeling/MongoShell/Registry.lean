/-!
The registry of methods: whether a method is supported, planned, deprecated or not supported at all.
Entries are listed under a bare name, or under a name with the context it is called in, and an entry
with a context counts before a bare one.
-/

namespace MongoShell

/-- Where in a statement a method is called. -/
inductive CallContext where
  /-- The first call on a collection. -/
  | collection
  /-- A call chained to one that gives a cursor. -/
  | cursor
  /-- A call on the database handle. -/
  | database
deriving DecidableEq, Repr

def CallContext.name : CallContext → String
  | collection => "collection"
  | cursor => "cursor"
  | database => "database"

inductive Classification where
  | supported
  | planned (hint : Option String)
  | unsupported (hint : Option String)
  | deprecated (alternative : String)
deriving DecidableEq, Repr

def Classification.isPlanned : Classification → Bool
  | planned _ => true
  | _ => false

/-- Entries by key; of entries with equal keys the last one counts. -/
structure Registry where
  entries : List (String × Classification)

namespace Registry

/-- The key of a method in one context. -/
def scopedKey (context : CallContext) (name : String) : String := context.name ++ ":" ++ name

/-- The last entry under a key. -/
def lastUnder? (key : String) : List (String × Classification) → Option Classification
  | [] => none
  | (k, classification) :: rest =>
    match lastUnder? key rest with
    | some found => some found
    | none => if k = key then some classification else none

def entry? (registry : Registry) (key : String) : Option Classification :=
  lastUnder? key registry.entries

/-- The entry for a method in a context, else the one under its bare name; a method without an entry
is not supported. -/
def classify (registry : Registry) (context : CallContext) (name : String) : Classification :=
  match registry.entry? (scopedKey context name) with
  | some classification => classification
  | none => (registry.entry? name).getD (.unsupported none)

/-- How many keys have a planned method. -/
def plannedCount (registry : Registry) : Nat :=
  (registry.entries.map (·.1)).eraseDups.countP fun key =>
    (registry.entry? key).any Classification.isPlanned

end Registry

end MongoShell
