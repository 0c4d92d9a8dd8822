/-!
Why an expression is no value, with the constructor at fault where there is one.
-/

namespace MongoShell

inductive ConversionFault where
  | unknownIdentifier (name : String)
  | unknownConstructor (name : String)
  /-- An expression that no value is written by, such as a member access. -/
  | notAValue
  | malformedNumber (lexeme : String)
  | integerTooWide (lexeme : String)
  | tooManyArguments (most count : Nat)
  | notAString (what : String)
  | notNumeric
  | notWhole (lexeme : String)
  | outsideUnsigned32 (what : String) (n : Int)
  | outsideSigned32 (n : Int)
  | malformedObjectId (text : String)
  | malformedDate (text : String)
  | notADate
  | malformedUuid (text : String)
  | malformedDecimal (text : String)
  | unexpectedTimestampField (key : String)
  | incompleteTimestamp
  | notATimestamp
  | notAPattern
  | missingPattern
  | subtypeOutOfRange (n : Int)
  | malformedBase64 (text : String)
  | base64Arguments (count : Nat)
  | malformedHex (text : String)
  | hexArguments (count : Nat)
deriving DecidableEq, Repr

namespace ConversionFault

def message : ConversionFault → String
  | unknownIdentifier name => "unsupported identifier '" ++ name ++ "' in value position"
  | unknownConstructor name => "unsupported helper '" ++ name ++ "()'"
  | notAValue => "unsupported expression in value position"
  | malformedNumber lexeme => "invalid number '" ++ lexeme ++ "'"
  | integerTooWide lexeme => "integer '" ++ lexeme ++ "' does not fit in 64 bits"
  | tooManyArguments most count =>
    "expected at most " ++ toString most ++ " argument(s), got " ++ toString count
  | notAString what => what ++ " must be a string"
  | notNumeric => "argument must be a number or a numeric string"
  | notWhole lexeme => "'" ++ lexeme ++ "' is not a whole number"
  | outsideUnsigned32 what n =>
    what ++ " " ++ toString n ++ " is outside the unsigned 32-bit range"
  | outsideSigned32 n => toString n ++ " is outside the 32-bit integer range"
  | malformedObjectId text => "invalid 24-character hex string '" ++ text ++ "'"
  | malformedDate text => "invalid date string '" ++ text ++ "'"
  | notADate => "argument must be an ISO-8601 string or milliseconds since the epoch"
  | malformedUuid text => "invalid UUID string '" ++ text ++ "'"
  | malformedDecimal text => "invalid decimal '" ++ text ++ "'"
  | unexpectedTimestampField key =>
    "unexpected field '" ++ key ++ "', expected only t and i"
  | incompleteTimestamp => "document form requires both t and i"
  | notATimestamp => "expected (t, i) or a \x7bt, i\x7d document"
  | notAPattern => "pattern must be a string or a regular expression"
  | missingPattern => "a pattern argument is required"
  | subtypeOutOfRange n => "invalid binary subtype " ++ toString n
  | malformedBase64 text => "invalid base64 string '" ++ text ++ "'"
  | base64Arguments count =>
    "expected 2 arguments (subtype, base64), got " ++ toString count
  | malformedHex text => "invalid hex string '" ++ text ++ "'"
  | hexArguments count => "expected 2 arguments (subtype, hex), got " ++ toString count

end ConversionFault

structure ConversionError where
  /-- The constructor as it was called, where one is at fault. -/
  constructor? : Option String
  fault : ConversionFault
deriving DecidableEq, Repr

namespace ConversionError

/-- The constructor as messages name it. -/
def constructorLabel? (e : ConversionError) : Option String := e.constructor?.map (· ++ "()")

end ConversionError

end MongoShell
