import MongoShell.Bytes.Base64
import MongoShell.Bytes.Uuid
import MongoShell.Calendar.Instant
import MongoShell.Expr
import MongoShell.Value.ConversionError
import MongoShell.Value.Fresh

/-!
The constructors of the shell: `ObjectId("...")`, `ISODate("...")`, `NumberLong(5)` and their like.
Their arguments are literals, so a constructor reads its argument expressions itself.
-/

namespace MongoShell

inductive Constructor where
  | objectId
  | date
  | uuid
  | int32
  | int64
  | double
  | decimal
  | timestamp
  | regExp
  | binData
  | hexData
  | minKey
  | maxKey
deriving DecidableEq, Repr

namespace Constructor

/-- The names that constructors are called by. -/
def names : List (String × Constructor) :=
  [("ObjectId", objectId), ("ISODate", date), ("Date", date), ("UUID", uuid), ("NumberInt", int32),
    ("Int32", int32), ("NumberLong", int64), ("Long", int64), ("Double", double),
    ("NumberDouble", double), ("NumberDecimal", decimal), ("Decimal128", decimal),
    ("Timestamp", timestamp), ("RegExp", regExp), ("BinData", binData), ("HexData", hexData),
    ("MinKey", minKey), ("MaxKey", maxKey)]

def ofName? (name : String) : Option Constructor := names.lookup name

/-- The UUID subtype of binary data. -/
def uuidSubtype : UInt8 := 4

end Constructor

namespace Value

/-- The value of a number literal: a double if it is written with a point, an exponent or as
infinity, else the narrowest integer. -/
def ofLexeme (lexeme : String) : Except ConversionFault Value :=
  let text := lexeme.toList
  if lexeme = "Infinity" then .ok (double (.infinity false))
  else if lexeme = "-Infinity" then .ok (double (.infinity true))
  else if text.any fun c => c == '.' || c == 'e' || c == 'E' then
    match Double.ofText? text with
    | some d => .ok (double d)
    | none => .error (.malformedNumber lexeme)
  else
    match (MongoShell.integer? text).bind ofInt? with
    | some value => .ok value
    | none => .error (.integerTooWide lexeme)

/-- A regular expression with the characters of its flags once each, in order. -/
def ofPattern (pattern flags : String) : Value :=
  regex pattern (String.ofList (flags.toList.mergeSort (· ≤ ·)).eraseDups)

/-! Arguments -/

/-- The number that an argument writes, as a literal or in a string without its outer blanks. -/
def numberText (argument : Expr) : Except ConversionFault String :=
  match argument with
  | .number _ lexeme => .ok lexeme
  | .string _ text => .ok (String.ofList (trimBlanks text.toList))
  | _ => .error .notNumeric

def stringArgument (what : String) (argument : Expr) : Except ConversionFault String :=
  match argument.string? with
  | some text => .ok text
  | none => .error (.notAString what)

def integerArgument (argument : Expr) : Except ConversionFault Int := do
  let lexeme ← numberText argument
  let value ← ofLexeme lexeme
  match value.integer? with
  | some n => .ok n
  | none => .error (.notWhole lexeme)

def doubleArgument (argument : Expr) : Except ConversionFault Double := do
  let lexeme ← numberText argument
  match Double.ofText? lexeme.toList with
  | some d => .ok d
  | none => .error (.malformedNumber lexeme)

def unsigned32Argument (what : String) (argument : Expr) : Except ConversionFault UInt32 := do
  let n ← integerArgument argument
  if 0 ≤ n ∧ n < 0x100000000 then .ok (UInt32.ofNat n.toNat)
  else .error (.outsideUnsigned32 what n)

def subtypeArgument (argument : Expr) : Except ConversionFault UInt8 := do
  let n ← integerArgument argument
  if 0 ≤ n ∧ n < 256 then .ok (UInt8.ofNat n.toNat) else .error (.subtypeOutOfRange n)

/-! The values of the constructors -/

def objectIdOf (fresh : ObjectId) : List Expr → Except ConversionFault Value
  | [] => .ok (objectId fresh)
  | [argument] => do
    let text ← stringArgument "argument" argument
    match hexBytes? text.toList with
    | some bytes =>
      if size : bytes.length = 12 then .ok (objectId ⟨bytes, size⟩)
      else .error (.malformedObjectId text)
    | none => .error (.malformedObjectId text)
  | arguments => .error (.tooManyArguments 1 arguments.length)

def dateOf (now : Int) : List Expr → Except ConversionFault Value
  | [] => .ok (date (Int64.ofInt now))
  | [.string _ text] =>
    match instant? text.toList with
    | some milliseconds => .ok (date (Int64.ofInt milliseconds))
    | none => .error (.malformedDate text)
  | [.number span lexeme] => do
    let milliseconds ← integerArgument (.number span lexeme)
    .ok (date (Int64.ofInt milliseconds))
  | [_] => .error .notADate
  | arguments => .error (.tooManyArguments 1 arguments.length)

def uuidOf (fresh : List UInt8) : List Expr → Except ConversionFault Value
  | [] => .ok (binary Constructor.uuidSubtype fresh)
  | [argument] => do
    let text ← stringArgument "argument" argument
    match uuidBytes? text.toList with
    | some bytes => .ok (binary Constructor.uuidSubtype bytes)
    | none => .error (.malformedUuid text)
  | arguments => .error (.tooManyArguments 1 arguments.length)

def int32Of : List Expr → Except ConversionFault Value
  | [] => .ok (int32 0)
  | [argument] => do
    let n ← integerArgument argument
    if -0x80000000 ≤ n ∧ n < 0x80000000 then .ok (int32 (Int32.ofInt n))
    else .error (.outsideSigned32 n)
  | arguments => .error (.tooManyArguments 1 arguments.length)

def int64Of : List Expr → Except ConversionFault Value
  | [] => .ok (int64 0)
  | [argument] => do
    let n ← integerArgument argument
    .ok (int64 (Int64.ofInt n))
  | arguments => .error (.tooManyArguments 1 arguments.length)

def doubleOf : List Expr → Except ConversionFault Value
  | [] => .ok (double .zero)
  | [argument] => do
    let d ← doubleArgument argument
    .ok (double d)
  | arguments => .error (.tooManyArguments 1 arguments.length)

/-- The decimal that a text writes, its outer blanks left out. -/
def decimalOfText (text : String) : Except ConversionFault Value :=
  match Decimal128.ofText? (trimBlanks text.toList) with
  | some d => .ok (decimal d)
  | none => .error (.malformedDecimal text)

def decimalOf : List Expr → Except ConversionFault Value
  | [] => decimalOfText "0"
  | [.string _ text] => decimalOfText text
  | [.number _ lexeme] => decimalOfText lexeme
  | [_] => .error .notNumeric
  | arguments => .error (.tooManyArguments 1 arguments.length)

/-- The last time and the last increment among properties, which may have no other key. -/
def timestampFields (time increment : Option UInt32) :
    List Property → Except ConversionFault (Option UInt32 × Option UInt32)
  | [] => .ok (time, increment)
  | .mk key _ value :: rest =>
    if key = "t" then do
      let time ← unsigned32Argument "t" value
      timestampFields (some time) increment rest
    else if key = "i" then do
      let increment ← unsigned32Argument "i" value
      timestampFields time (some increment) rest
    else .error (.unexpectedTimestampField key)

def timestampOf : List Expr → Except ConversionFault Value
  | [] => .ok (timestamp 0 0)
  | [.object _ properties] => do
    match ← timestampFields none none properties with
    | (some time, some increment) => .ok (timestamp time increment)
    | _ => .error .incompleteTimestamp
  | [_] => .error .notATimestamp
  | [time, increment] => do
    let time ← unsigned32Argument "seconds" time
    let increment ← unsigned32Argument "increment" increment
    .ok (timestamp time increment)
  | arguments => .error (.tooManyArguments 2 arguments.length)

/-- The pattern and the flags of the first argument of `RegExp`. -/
def patternArgument : Expr → Except ConversionFault (String × String)
  | .string _ pattern => .ok (pattern, "")
  | .regex _ pattern flags => .ok (pattern, flags)
  | _ => .error .notAPattern

def regExpOf : List Expr → Except ConversionFault Value
  | [] => .error .missingPattern
  | [argument] => do
    let (pattern, flags) ← patternArgument argument
    .ok (ofPattern pattern flags)
  | [argument, flags] => do
    let (pattern, _) ← patternArgument argument
    let flags ← stringArgument "flags" flags
    .ok (ofPattern pattern flags)
  | argument :: rest => do
    let _ ← patternArgument argument
    .error (.tooManyArguments 2 (argument :: rest).length)

def binDataOf : List Expr → Except ConversionFault Value
  | [subtype, data] => do
    let subtype ← subtypeArgument subtype
    let text ← stringArgument "data" data
    match base64Bytes? text.toList with
    | some bytes => .ok (binary subtype bytes)
    | none => .error (.malformedBase64 text)
  | arguments => .error (.base64Arguments arguments.length)

def hexDataOf : List Expr → Except ConversionFault Value
  | [subtype, data] => do
    let subtype ← subtypeArgument subtype
    let text ← stringArgument "data" data
    match hexBytes? text.toList with
    | some bytes => .ok (binary subtype bytes)
    | none => .error (.malformedHex text)
  | arguments => .error (.hexArguments arguments.length)

/-- A value whose constructor takes no arguments. -/
def withoutArguments (value : Value) : List Expr → Except ConversionFault Value
  | [] => .ok value
  | arguments => .error (.tooManyArguments 0 arguments.length)

end Value

/-- The value of a constructor call that starts at an offset of its source. -/
def Constructor.apply (fresh : Fresh) (offset : Nat) (arguments : List Expr) :
    Constructor → Except ConversionFault Value
  | objectId => Value.objectIdOf (fresh.objectId offset) arguments
  | date => Value.dateOf fresh.now arguments
  | uuid => Value.uuidOf (fresh.uuid offset) arguments
  | int32 => Value.int32Of arguments
  | int64 => Value.int64Of arguments
  | double => Value.doubleOf arguments
  | decimal => Value.decimalOf arguments
  | timestamp => Value.timestampOf arguments
  | regExp => Value.regExpOf arguments
  | binData => Value.binDataOf arguments
  | hexData => Value.hexDataOf arguments
  | minKey => Value.withoutArguments .minKey arguments
  | maxKey => Value.withoutArguments .maxKey arguments

/-- The value of a call by name. -/
def Value.construct (fresh : Fresh) (offset : Nat) (name : String) (arguments : List Expr) :
    Except ConversionError Value :=
  match Constructor.ofName? name with
  | some constructor =>
    match constructor.apply fresh offset arguments with
    | .ok value => .ok value
    | .error fault => .error ⟨some name, fault⟩
  | none => .error ⟨none, .unknownConstructor name⟩

end MongoShell
