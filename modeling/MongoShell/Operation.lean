import MongoShell.Value

/-!
Operations: what a statement asks of the database. An operation has one record for all kinds; a
field that a kind does not use, or that the statement leaves open, is absent.
-/

namespace MongoShell

inductive OperationKind where
  /-- No operation yet; no statement asks for this kind. -/
  | unknown
  | find
  | findOne
  | aggregate
  | showDatabases
  | showCollections
  | getCollectionNames
  | getCollectionInfos
  | getIndexes
  | countDocuments
  | estimatedDocumentCount
  | distinct
  | insertOne
  | insertMany
  | updateOne
  | updateMany
  | replaceOne
  | deleteOne
  | deleteMany
  | findOneAndUpdate
  | findOneAndReplace
  | findOneAndDelete
  | createIndex
  | dropIndex
  | dropIndexes
  | drop
  | createCollection
  | dropDatabase
  | renameCollection
deriving DecidableEq, Repr

namespace OperationKind

def all : List OperationKind :=
  [unknown, find, findOne, aggregate, showDatabases, showCollections, getCollectionNames,
    getCollectionInfos, getIndexes, countDocuments, estimatedDocumentCount, distinct, insertOne,
    insertMany, updateOne, updateMany, replaceOne, deleteOne, deleteMany, findOneAndUpdate,
    findOneAndReplace, findOneAndDelete, createIndex, dropIndex, dropIndexes, drop,
    createCollection, dropDatabase, renameCollection]

def name : OperationKind → String
  | unknown => "unknown"
  | find => "find"
  | findOne => "findOne"
  | aggregate => "aggregate"
  | showDatabases => "showDatabases"
  | showCollections => "showCollections"
  | getCollectionNames => "getCollectionNames"
  | getCollectionInfos => "getCollectionInfos"
  | getIndexes => "getIndexes"
  | countDocuments => "countDocuments"
  | estimatedDocumentCount => "estimatedDocumentCount"
  | distinct => "distinct"
  | insertOne => "insertOne"
  | insertMany => "insertMany"
  | updateOne => "updateOne"
  | updateMany => "updateMany"
  | replaceOne => "replaceOne"
  | deleteOne => "deleteOne"
  | deleteMany => "deleteMany"
  | findOneAndUpdate => "findOneAndUpdate"
  | findOneAndReplace => "findOneAndReplace"
  | findOneAndDelete => "findOneAndDelete"
  | createIndex => "createIndex"
  | dropIndex => "dropIndex"
  | dropIndexes => "dropIndexes"
  | drop => "drop"
  | createCollection => "createCollection"
  | dropDatabase => "dropDatabase"
  | renameCollection => "renameCollection"

def ofName? (name : String) : Option OperationKind := all.find? (·.name == name)

/-- Kinds that give a cursor, to which modifiers may be chained. -/
def isCursor : OperationKind → Bool
  | find | findOne => true
  | _ => false

/-- Kinds that act on one collection that exists. -/
def isCollectionScoped : OperationKind → Bool
  | unknown | showDatabases | showCollections | getCollectionNames | getCollectionInfos
  | createCollection | dropDatabase => false
  | _ => true

end OperationKind

/-- An index, by its name or by its keys. -/
inductive IndexSelector where
  | name (name : String)
  | keys (keys : Document)
deriving Repr

/-- A change: a document of update operators, or an aggregation pipeline. -/
inductive Update where
  | document (document : Document)
  | pipeline (stages : List Document)
deriving Repr

/-- Which state of a document is returned when it is changed. -/
inductive ReturnDocument where
  | before
  | after
deriving DecidableEq, Repr

def ReturnDocument.name : ReturnDocument → String
  | before => "before"
  | after => "after"

structure Operation where
  kind : OperationKind
  /-- Empty for operations on no collection. -/
  collection : String := ""
  filter : Option Document := none
  sort : Option Document := none
  projection : Option Document := none
  hint : Option IndexSelector := none
  max : Option Document := none
  min : Option Document := none
  limit : Option Int := none
  skip : Option Int := none
  maxTimeMS : Option Int := none
  pipeline : Option (List Document) := none
  document : Option Document := none
  documents : Option (List Document) := none
  update : Option Update := none
  replacement : Option Document := none
  upsert : Option Bool := none
  ordered : Option Bool := none
  bypassDocumentValidation : Option Bool := none
  arrayFilters : Option (List Document) := none
  returnDocument : Option ReturnDocument := none
  distinctField : Option String := none
  indexKeys : Option Document := none
  indexName : Option String := none
  unique : Option Bool := none
  sparse : Option Bool := none
  expireAfterSeconds : Option Int := none
  /-- The index to drop. -/
  index : Option IndexSelector := none
  newName : Option String := none
  dropTarget : Option Bool := none
  capped : Option Bool := none
  size : Option Int := none
  maxDocuments : Option Int := none
  nameOnly : Option Bool := none
  authorizedCollections : Option Bool := none
deriving Repr

end MongoShell
