import MongoShell.Operation

/-!
Requests to a database client, and the replies that each may have. Documents in a request have each
key once.
-/

namespace MongoShell

/-- The index or indexes to use or drop. -/
inductive IndexTarget where
  | name (name : String)
  | keys (keys : Document)
  /-- Every index but the one on the identifier. -/
  | all
deriving Repr

structure FindRequest where
  collection : String
  filter : Document
  sort : Option Document
  projection : Option Document
  hint : Option IndexTarget
  max : Option Document
  min : Option Document
  limit : Option Int
  skip : Option Int
  maxTime : Option Nat
deriving Repr

structure AggregateRequest where
  collection : String
  pipeline : List Document
  hint : Option IndexTarget
  maxTime : Option Nat
deriving Repr

structure CountRequest where
  collection : String
  filter : Document
  hint : Option IndexTarget
  limit : Option Int
  skip : Option Int
  maxTime : Option Nat
deriving Repr

structure DistinctRequest where
  collection : String
  field : String
  filter : Document
  maxTime : Option Nat
deriving Repr

structure InsertRequest where
  collection : String
  documents : List Document
  ordered : Option Bool
  bypassDocumentValidation : Option Bool
deriving Repr

structure UpdateRequest where
  collection : String
  filter : Document
  update : Update
  /-- Whether all matching documents are changed, or the first one. -/
  multi : Bool
  upsert : Option Bool
  arrayFilters : Option (List Document)
  hint : Option IndexTarget
  bypassDocumentValidation : Option Bool
deriving Repr

structure ReplaceRequest where
  collection : String
  filter : Document
  replacement : Document
  upsert : Option Bool
  hint : Option IndexTarget
  bypassDocumentValidation : Option Bool
deriving Repr

structure DeleteRequest where
  collection : String
  filter : Document
  multi : Bool
  hint : Option IndexTarget
deriving Repr

/-- What becomes of a document that is found. -/
inductive Modification where
  | update (update : Update)
  | replace (replacement : Document)
  | delete
deriving Repr

structure FindAndModifyRequest where
  collection : String
  filter : Document
  modification : Modification
  projection : Option Document
  sort : Option Document
  upsert : Option Bool
  returnDocument : ReturnDocument
  arrayFilters : Option (List Document)
  hint : Option IndexTarget
  maxTime : Option Nat
  bypassDocumentValidation : Option Bool
deriving Repr

structure IndexRequest where
  collection : String
  keys : Document
  name : Option String
  unique : Option Bool
  sparse : Option Bool
  /-- Seconds after which documents expire. -/
  expireAfter : Option Nat
deriving Repr

structure ListCollectionsRequest where
  filter : Option Document
  nameOnly : Option Bool
  authorizedCollections : Option Bool
deriving Repr

structure CreateCollectionRequest where
  name : String
  capped : Option Bool
  size : Option Nat
  max : Option Nat
deriving Repr

inductive Request where
  | listDatabaseNames
  | listCollectionNames
  | listCollections (request : ListCollectionsRequest)
  | find (request : FindRequest)
  | findOne (request : FindRequest)
  | aggregate (request : AggregateRequest)
  | countDocuments (request : CountRequest)
  | estimatedDocumentCount (collection : String) (maxTime : Option Nat)
  | distinct (request : DistinctRequest)
  | insert (request : InsertRequest)
  | update (request : UpdateRequest)
  | replace (request : ReplaceRequest)
  | delete (request : DeleteRequest)
  | findAndModify (request : FindAndModifyRequest)
  | createIndex (request : IndexRequest)
  | dropIndex (collection : String) (target : IndexTarget)
  | listIndexes (collection : String)
  | dropCollection (collection : String)
  | createCollection (request : CreateCollectionRequest)
  | dropDatabase
  | renameCollection (source target : String) (dropTarget : Bool)
deriving Repr

/-- What a reply consists of. -/
inductive ReplyShape where
  | names
  | name
  | documents
  | firstDocument
  | summary
  | values
  | count
  | done
deriving DecidableEq, Repr

/-- A row of a reply. What documents hold, and which values there are besides documents, texts,
whole numbers and truth values, is the client's affair: both are left open, since nothing here looks
at them. -/
inductive ReplyRow (δ ω : Type) where
  | document (document : δ)
  | string (text : String)
  | int64 (n : Int64)
  | boolean (b : Bool)
  | other (value : ω)
deriving DecidableEq, Repr

def ReplyRow.document? {δ ω : Type} : ReplyRow δ ω → Option δ
  | document found => some found
  | _ => none

/-- The replies of a shape, of a client with documents and other values of its own. -/
def ReplyShape.Reply (δ ω : Type) : ReplyShape → Type
  | names => List String
  | name => String
  | documents => List δ
  | firstDocument => Option δ
  | summary => δ
  | values => List (ReplyRow δ ω)
  | count => Nat
  | done => Unit

/-- The rows that a reply gives. A count above the greatest 64-bit integer is given as that integer,
and a bare acknowledgement as true. -/
def ReplyShape.rows {δ ω : Type} : (shape : ReplyShape) → shape.Reply δ ω → List (ReplyRow δ ω)
  | names, texts => List.map ReplyRow.string texts
  | name, text => [.string text]
  | documents, found => List.map ReplyRow.document found
  | firstDocument, found => (Option.map ReplyRow.document found).toList
  | summary, entries => [.document entries]
  | values, found => found
  | count, n => [.int64 (Int64.ofNat (min n 0x7FFFFFFFFFFFFFFF))]
  | done, () => [.boolean true]

/-- What the reply to a request consists of. -/
def Request.shape : Request → ReplyShape
  | listDatabaseNames | listCollectionNames => .names
  | listCollections _ | find _ | aggregate _ | listIndexes _ => .documents
  | findOne _ | findAndModify _ => .firstDocument
  | countDocuments _ | estimatedDocumentCount _ _ => .count
  | distinct _ => .values
  | insert _ | update _ | replace _ | delete _ => .summary
  | createIndex _ => .name
  | dropIndex _ _ | dropCollection _ | createCollection _ | dropDatabase | renameCollection _ _ _ =>
    .done

end MongoShell
