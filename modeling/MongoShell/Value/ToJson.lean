import MongoShell.Bytes.Base64
import MongoShell.Calendar.Instant
import MongoShell.Json
import MongoShell.Number.Shortest
import MongoShell.Value

/-!
Values in JSON: the common types in the JSON types that they have, the others as extended JSON, an
object whose first name starts with a dollar sign and names the type.
-/

namespace MongoShell

namespace Value

/-- An extended value: an object with one member. -/
def extended (name : String) (json : Json) : Json := .object [(name, json)]

/-- The word for an infinity or a NaN; the sign of a NaN shows. -/
def doubleWord (d : Double) : String :=
  (if d.negative then "-" else "") ++ (if d.isNaN then "NaN" else "Infinity")

def doubleToJson (d : Double) : Json :=
  if d.isFinite then .number d.text else extended "$numberDouble" (.string (doubleWord d))

/-- Dates of the years that are written in text, all others by their milliseconds. -/
def dateToJson (milliseconds : Int) : Json :=
  extended "$date" <|
    if isTextYear milliseconds then .string (String.ofList (instantText milliseconds))
    else extended "$numberLong" (.string (toString milliseconds))

def binaryToJson (subtype : UInt8) (bytes : List UInt8) : Json :=
  extended "$binary" <| .object
    [("base64", .string (String.ofList (base64Text bytes))),
      ("subType", .string (String.ofList (hexText [subtype])))]

mutual

/-- The value in JSON. -/
def toJson : Value → Json
  | null => .null
  | double d => doubleToJson d
  | string text => .string text
  | document entries => .object (membersOf entries)
  | array items => .array (jsonItemsOf items)
  | binary subtype bytes => binaryToJson subtype bytes
  | objectId id => extended "$oid" (.string (String.ofList (hexText id.bytes)))
  | boolean b => .boolean b
  | date milliseconds => dateToJson milliseconds.toInt
  | regex pattern options =>
    extended "$regularExpression"
      (.object [("pattern", .string pattern), ("options", .string options)])
  | int32 n => .ofInt n.toInt
  | int64 n => .ofInt n.toInt
  | timestamp time increment =>
    extended "$timestamp" (.object [("t", .ofInt time.toNat), ("i", .ofInt increment.toNat)])
  | decimal d => extended "$numberDecimal" (.string d.text)
  | minKey => extended "$minKey" (.ofInt 1)
  | maxKey => extended "$maxKey" (.ofInt 1)

def membersOf : List (String × Value) → List (String × Json)
  | [] => []
  | (key, value) :: rest => (key, value.toJson) :: membersOf rest

def jsonItemsOf : List Value → List Json
  | [] => []
  | value :: rest => value.toJson :: jsonItemsOf rest

end

end Value

/-- A document in JSON. -/
def Document.toJson (document : Document) : Json := .object (Value.membersOf document)

end MongoShell
