import MongoShell.Method.Argument

/-!
Modifiers chained to a call that gives a cursor. Each takes one argument and sets one field, in
place of what was set before.
-/

namespace MongoShell

inductive Modifier where
  | sort
  | limit
  | skip
  | projection
  | hint
  | max
  | min
deriving DecidableEq, Repr

namespace Modifier

def all : List Modifier := [sort, limit, skip, projection, hint, max, min]

def name : Modifier → String
  | sort => "sort"
  | limit => "limit"
  | skip => "skip"
  | projection => "projection"
  | hint => "hint"
  | max => "max"
  | min => "min"

def ofName? (name : String) : Option Modifier := all.find? (·.name == name)

/-- A document argument that has to be given. -/
def readDocument (what : String) : Option Value → Except ArgumentFault Document :=
  readRequired (.missing what) (Value.asDocument what)

/-- A number argument that has to be given. -/
def readInteger : Option Value → Except ArgumentFault Int :=
  readRequired (.notInteger "null") fun value =>
    match value.integer? with
    | some n => .ok n
    | none => .error (.notInteger value.typeName)

/-- Set the field of a modifier from its argument. -/
def set (fresh : Fresh) (argument : Option Expr) (op : Operation) :
    Modifier → Except CallFault Operation
  | sort => do
    let sort ← Argument.read fresh argument (readDocument "sort specification")
    .ok { op with sort := some sort }
  | projection => do
    let projection ← Argument.read fresh argument (readDocument "projection")
    .ok { op with projection := some projection }
  | max => do
    let max ← Argument.read fresh argument (readDocument "max bound")
    .ok { op with max := some max }
  | min => do
    let min ← Argument.read fresh argument (readDocument "min bound")
    .ok { op with min := some min }
  | hint => do
    let hint ←
      Argument.read fresh argument
        (readRequired (.missing "an index name or key document") (Value.asIndex "hint"))
    .ok { op with hint := some hint }
  | limit => do
    let limit ← Argument.read fresh argument readInteger
    .ok { op with limit := some limit }
  | skip => do
    let skip ← Argument.read fresh argument readInteger
    if skip < 0 then .error (.argument (.negative "skip")) else .ok { op with skip := some skip }

/-- Refuse any number of arguments but one. -/
def checkCount (count : Nat) : Except CallFault Unit :=
  if count = 1 then .ok () else .error (.argument (.wrongCount 1 count))

end Modifier

end MongoShell
