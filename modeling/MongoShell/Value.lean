import MongoShell.Number.Decimal128
import MongoShell.Number.Double

/-!
Typed document values. A document is a list of entries in order; a key may occur more than once, and
then its last entry counts. `mergeKeys` gives the form in which each key occurs once.
-/

namespace MongoShell

/-- Twelve bytes that name a document. -/
structure ObjectId where
  bytes : List UInt8
  size : bytes.length = 12
deriving DecidableEq, Repr

inductive Value where
  | null
  | double (d : Double)
  | string (text : String)
  | document (entries : List (String × Value))
  | array (items : List Value)
  | binary (subtype : UInt8) (bytes : List UInt8)
  | objectId (id : ObjectId)
  | boolean (b : Bool)
  /-- Milliseconds from the start of 1970. -/
  | date (milliseconds : Int64)
  | regex (pattern options : String)
  | int32 (n : Int32)
  | int64 (n : Int64)
  | timestamp (time increment : UInt32)
  | decimal (d : Decimal128)
  | minKey
  | maxKey
deriving Repr

abbrev Document := List (String × Value)

namespace Document

/-- The last value under a key. -/
def get? (key : String) : Document → Option Value
  | [] => none
  | (k, value) :: rest =>
    match get? key rest with
    | some found => some found
    | none => if k = key then some value else none

def keys (document : Document) : List String := document.map (·.1)

/-- Put a value under a key: in the place of the first entry with the key, or at the end. -/
def put (key : String) (value : Value) : Document → Document
  | [] => [(key, value)]
  | (k, old) :: rest => if k = key then (key, value) :: rest else (k, old) :: put key value rest

end Document

namespace Value

/-- The type as messages name it. -/
def typeName : Value → String
  | null => "null"
  | double _ => "double"
  | string _ => "string"
  | document _ => "document"
  | array _ => "array"
  | binary _ _ => "binary"
  | objectId _ => "objectId"
  | boolean _ => "boolean"
  | date _ => "date"
  | regex _ _ => "regex"
  | int32 _ => "int"
  | int64 _ => "long"
  | timestamp _ _ => "timestamp"
  | decimal _ => "decimal"
  | minKey => "minKey"
  | maxKey => "maxKey"

def document? : Value → Option Document
  | document entries => some entries
  | _ => none

def string? : Value → Option String
  | string text => some text
  | _ => none

def boolean? : Value → Option Bool
  | boolean b => some b
  | _ => none

/-- The whole number that a value holds: an integer, or a double without a fraction that is small
enough to be exact. -/
def integer? : Value → Option Int
  | int32 n => some n.toInt
  | int64 n => some n.toInt
  | double d => d.integer?
  | _ => none

/-- A whole number in the narrowest integer type that takes it. -/
def ofInt? (n : Int) : Option Value :=
  if -0x80000000 ≤ n ∧ n < 0x80000000 then some (int32 (Int32.ofInt n))
  else if -0x8000000000000000 ≤ n ∧ n < 0x8000000000000000 then some (int64 (Int64.ofInt n))
  else none

mutual

/-- The value with each key of a document once, at every depth. -/
def mergeKeys : Value → Value
  | document entries => document (mergeEntries [] entries)
  | array items => array (mergeItems items)
  | value => value

/-- Put entries into a document one by one. -/
def mergeEntries (merged : List (String × Value)) : List (String × Value) → List (String × Value)
  | [] => merged
  | (key, value) :: rest => mergeEntries (Document.put key value.mergeKeys merged) rest

def mergeItems : List Value → List Value
  | [] => []
  | value :: rest => value.mergeKeys :: mergeItems rest

end

mutual

/-- Equality of values: documents entry by entry in order, doubles as numbers. -/
def same : Value → Value → Bool
  | double a, double b => a.sameNumber b
  | document a, document b => sameEntries a b
  | array a, array b => sameItems a b
  | null, null => true
  | string a, string b => a == b
  | binary s a, binary t b => s == t && a == b
  | objectId a, objectId b => a == b
  | boolean a, boolean b => a == b
  | date a, date b => a == b
  | regex p o, regex q r => p == q && o == r
  | int32 a, int32 b => a == b
  | int64 a, int64 b => a == b
  | timestamp t i, timestamp u j => t == u && i == j
  | decimal a, decimal b => a == b
  | minKey, minKey => true
  | maxKey, maxKey => true
  | _, _ => false

def sameEntries : List (String × Value) → List (String × Value) → Bool
  | [], [] => true
  | (k, a) :: rest, (l, b) :: others => k == l && a.same b && sameEntries rest others
  | _, _ => false

def sameItems : List Value → List Value → Bool
  | [], [] => true
  | a :: rest, b :: others => a.same b && sameItems rest others
  | _, _ => false

end

end Value

/-- The document with each key once, at every depth: in the place of its first entry, with the value
of its last. -/
def Document.mergeKeys (document : Document) : Document := Value.mergeEntries [] document

end MongoShell
