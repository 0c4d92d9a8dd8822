import MongoShell.Method.Fault
import MongoShell.Value.OfExpr

/-!
Typed reading of values that a call is given, by position or in its options document. A null counts
as not given.
-/

namespace MongoShell

namespace Value

def isNull : Value → Bool
  | null => true
  | _ => false

/-- A value that has to be a document; `what` names it in messages. -/
def asDocument (what : String) : Value → Except ArgumentFault Document
  | document entries => .ok entries
  | value => .error (.wrongType what .document value.typeName)

/-- The items of an array that have to be documents, the first of them being the `start`-th. -/
def asDocumentItems (what : String) (start : Nat) :
    List Value → Except ArgumentFault (List Document)
  | [] => .ok []
  | value :: rest => do
    let document ← asDocument (what ++ " element " ++ toString start) value
    let documents ← asDocumentItems what (start + 1) rest
    .ok (document :: documents)

def asDocuments (what : String) : Value → Except ArgumentFault (List Document)
  | array items => asDocumentItems what 0 items
  | value => .error (.wrongType what .array value.typeName)

def asIndex (what : String) : Value → Except ArgumentFault IndexSelector
  | string name => .ok (.name name)
  | document keys => .ok (.keys keys)
  | value => .error (.wrongType what .index value.typeName)

def asBoolean (what : String) : Value → Except ArgumentFault Bool
  | boolean b => .ok b
  | value => .error (.wrongType what .boolean value.typeName)

def asString (what : String) : Value → Except ArgumentFault String
  | string text => .ok text
  | value => .error (.wrongType what .string value.typeName)

def asInteger (what : String) (value : Value) : Except ArgumentFault Int :=
  match value.integer? with
  | some n => .ok n
  | none => .error (.wrongType what .integer value.typeName)

def asNatural (what : String) (value : Value) : Except ArgumentFault Int := do
  let n ← asInteger what value
  if n < 0 then .error (.negative what) else .ok n

end Value

/-- Read a value if there is one. -/
def readGiven {α : Type} (read : Value → Except ArgumentFault α) :
    Option Value → Except ArgumentFault (Option α)
  | none => .ok none
  | some value => (read value).map some

/-- Read a value that has to be there. -/
def readRequired {α : Type} (absent : ArgumentFault) (read : Value → Except ArgumentFault α) :
    Option Value → Except ArgumentFault α
  | none => .error absent
  | some value => read value

namespace Argument

/-- The value of an argument, if it is given. -/
def value? (fresh : Fresh) (argument : Option Expr) : Except CallFault (Option Value) :=
  match argument with
  | none => .ok none
  | some e =>
    match Value.ofExpr fresh e with
    | .ok value => .ok (if value.isNull then none else some value)
    | .error e => .error (.conversion e)

/-- An argument that is read from its value. -/
def read {α : Type} (fresh : Fresh) (argument : Option Expr)
    (f : Option Value → Except ArgumentFault α) : Except CallFault α := do
  let value ← value? fresh argument
  (f value).mapError .argument

/-- The text of an argument that has to be a string literal, if it is given. -/
def literal? (what : String) : Option Expr → Except CallFault (Option String)
  | none => .ok none
  | some e =>
    match e.string? with
    | some text => .ok (some text)
    | none => .error (.argument (.notLiteral what))

/-- The text of a string literal that has to be there and to hold something. -/
def name (what : String) (argument : Option Expr) : Except CallFault String := do
  match ← literal? what argument with
  | none => .error (.argument (.missing what))
  | some text => if text = "" then .error (.argument (.empty what)) else .ok text

end Argument

end MongoShell
