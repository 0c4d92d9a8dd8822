import MongoShell.Operation
import MongoShell.Value.ConversionError

/-!
What can be wrong with the arguments of a method call.
-/

namespace MongoShell

/-- What an argument or an option has to be. -/
inductive Shape where
  | document
  | array
  | index
  | boolean
  | integer
  | string
  | update
deriving DecidableEq, Repr

def Shape.describe : Shape → String
  | document => "a document"
  | array => "an array"
  | index => "an index name or key document"
  | boolean => "a boolean"
  | integer => "an integer"
  | string => "a string"
  | update => "a document or a pipeline"

inductive ArgumentFault where
  | tooMany (most count : Nat)
  | wrongCount (count given : Nat)
  /-- A value of another type than the one needed; `found` names its type. -/
  | wrongType (what : String) (shape : Shape) (found : String)
  | missing (what : String)
  | notLiteral (what : String)
  | empty (what : String)
  | negative (what : String)
  /-- The argument of a modifier that takes a number is of another type, or null. -/
  | notInteger (found : String)
  | notAnOperator (key : String)
  | operatorInReplacement (key : String)
  | badReturnDocument (text : String)
  | cappedWithoutSize
  | noCollectionName
  | notChainable (kind : OperationKind)
deriving DecidableEq, Repr

namespace ArgumentFault

def message : ArgumentFault → String
  | tooMany most count =>
    "expected at most " ++ toString most ++ " argument(s), got " ++ toString count
  | wrongCount count given =>
    "expected exactly " ++ toString count ++ " argument(s), got " ++ toString given
  | wrongType what shape found => what ++ " must be " ++ shape.describe ++ ", found " ++ found
  | missing what => what ++ " is required"
  | notLiteral what => what ++ " must be a string literal"
  | empty what => what ++ " must not be empty"
  | negative what => what ++ " must not be negative"
  | notInteger found => "expected an integer, found " ++ found
  | notAnOperator key =>
    "update document may only contain update operators, found '" ++ key ++ "'"
  | operatorInReplacement key =>
    "replacement document must not contain update operators, found '" ++ key ++ "'"
  | badReturnDocument text =>
    "option returnDocument must be \"before\" or \"after\", found \"" ++ text ++ "\""
  | cappedWithoutSize => "a capped collection requires a size"
  | noCollectionName =>
    "collection name must be given as db.name, db[\"name\"] or db.getCollection(\"name\")"
  | notChainable kind => "cannot be chained after " ++ kind.name ++ "()"

end ArgumentFault

/-- Why a call is refused. -/
inductive CallFault where
  /-- An argument is no value. -/
  | conversion (e : ConversionError)
  | unsupportedOption (key : String)
  | argument (fault : ArgumentFault)
deriving DecidableEq, Repr

end MongoShell
