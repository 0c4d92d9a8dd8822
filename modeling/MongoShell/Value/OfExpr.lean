import MongoShell.Value.Constructor

/-!
The value that an expression writes. Literals stand for themselves, a few identifiers for constants,
and calls for constructors, with or without `new`.
-/

namespace MongoShell

namespace Value

/-- The constants that have a name. -/
def constants : List (String × Value) :=
  [("undefined", null), ("Infinity", double (.infinity false)), ("NaN", double (.nan false)),
    ("MinKey", minKey), ("MaxKey", maxKey)]

def ofIdentifier (name : String) : Except ConversionError Value :=
  match constants.lookup name with
  | some value => .ok value
  | none => .error ⟨none, .unknownIdentifier name⟩

/-- The value of a call, which has to be by name. -/
def ofCall (fresh : Fresh) (span : Span) (callee : Expr) (arguments : List Expr) :
    Except ConversionError Value :=
  match callee with
  | .identifier _ name => construct fresh span.start name arguments
  | _ => .error ⟨none, .notAValue⟩

/-- The value of what stands behind `new`: a call, or a name without arguments. -/
def ofConstruction (fresh : Fresh) (span : Span) : Expr → Except ConversionError Value
  | .call _ callee arguments => ofCall fresh span callee arguments
  | .identifier _ name => construct fresh span.start name []
  | _ => .error ⟨none, .notAValue⟩

mutual

/-- The value that an expression writes. -/
def ofExpr (fresh : Fresh) : Expr → Except ConversionError Value
  | .string _ text => .ok (string text)
  | .number _ lexeme => (ofLexeme lexeme).mapError (⟨none, ·⟩)
  | .boolean _ b => .ok (boolean b)
  | .null _ => .ok null
  | .regex _ pattern flags => .ok (ofPattern pattern flags)
  | .object _ properties => (entriesOf fresh properties).map document
  | .array _ elements => (itemsOf fresh elements).map array
  | .identifier _ name => ofIdentifier name
  | .call span callee arguments => ofCall fresh span callee arguments
  | .construct span target => ofConstruction fresh span target
  | .member .. => .error ⟨none, .notAValue⟩
  | .index .. => .error ⟨none, .notAValue⟩

def itemsOf (fresh : Fresh) : List Expr → Except ConversionError (List Value)
  | [] => .ok []
  | e :: rest => do
    let value ← ofExpr fresh e
    let values ← itemsOf fresh rest
    .ok (value :: values)

def entriesOf (fresh : Fresh) : List Property → Except ConversionError (List (String × Value))
  | [] => .ok []
  | .mk key _ e :: rest => do
    let value ← ofExpr fresh e
    let entries ← entriesOf fresh rest
    .ok ((key, value) :: entries)

end

end Value

end MongoShell
