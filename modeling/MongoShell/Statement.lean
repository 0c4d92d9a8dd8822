import MongoShell.Expr

/-!
Statements: the shell's own commands, calls on the database handle `db`, and any other expression.
`StatementKind.ofExpr` finds the database calls among the expressions; it reads an expression as a
root name and the accesses applied to it, and accepts only whole chains of accesses.
-/

namespace MongoShell

/-- A method call in a chain, with the span from the start of the chain through its arguments. -/
structure MethodCall where
  name : String
  arguments : List Expr
  span : Span

namespace MethodCall

/-- The method as messages name it. -/
def label (call : MethodCall) : String := call.name ++ "()"

/-- The call without its places. -/
def eraseSpans (call : MethodCall) : MethodCall :=
  ⟨call.name, Expr.eraseAll call.arguments, Expr.nowhere⟩

end MethodCall

/-- How a statement names its collection. -/
inductive CollectionAddress where
  /-- As members: `db.users`, `db.system.users`. -/
  | member (name : String)
  /-- In brackets: `db["users"]`. -/
  | bracket (name : String)
  /-- By a call: `db.getCollection("users")`. -/
  | accessor (name : String)
  /-- A bracket or accessor whose argument is not one string literal. -/
  | unsupported
deriving DecidableEq, Repr

/-- The name given, empty where none is. -/
def CollectionAddress.name : CollectionAddress → String
  | member name | bracket name | accessor name => name
  | unsupported => ""

/-- A collection and the calls on it: the collection method, then the calls chained to it. -/
structure CollectionChain where
  collection : CollectionAddress
  first : MethodCall
  chained : List MethodCall

def CollectionChain.calls (chain : CollectionChain) : List MethodCall :=
  chain.first :: chain.chained

/-- The database methods that have a meaning of their own. -/
inductive DatabaseCommand where
  | getCollectionNames
  | getCollectionInfos
  | createCollection
  | dropDatabase
deriving DecidableEq, Repr

def DatabaseCommand.name : DatabaseCommand → String
  | getCollectionNames => "getCollectionNames"
  | getCollectionInfos => "getCollectionInfos"
  | createCollection => "createCollection"
  | dropDatabase => "dropDatabase"

def DatabaseCommand.ofName? (name : String) : Option DatabaseCommand :=
  [getCollectionNames, getCollectionInfos, createCollection, dropDatabase].find? (·.name == name)

inductive DatabaseStatement where
  | command (command : DatabaseCommand) (call : MethodCall)
  /-- Any other `db.method(...)`; what is accessed on its result is not kept. -/
  | method (call : MethodCall)
  | collection (chain : CollectionChain)

inductive ShellCommand where
  | showDatabases
  | showCollections
  | other (text : String)
deriving DecidableEq, Repr

/-- The command that `show` and a word make; `text` is the source of both. -/
def ShellCommand.ofShow (word text : String) : ShellCommand :=
  if word = "dbs" ∨ word = "databases" then showDatabases
  else if word = "collections" ∨ word = "tables" then showCollections
  else other text

inductive StatementKind where
  | shell (command : ShellCommand)
  | database (statement : DatabaseStatement)
  | expression (e : Expr)

structure Statement where
  kind : StatementKind
  text : String
  span : Span

/-! From expressions to database statements -/

/-- One access applied to a value. -/
inductive Access where
  | member (name : String)
  | index (position : Expr)
  | call (arguments : List Expr) (span : Span)

/-- The root name of an expression and the accesses on it, the innermost first, in front of those
already gathered. -/
def Expr.accesses? (gathered : List Access) : Expr → Option (String × List Access)
  | .member _ target name => target.accesses? (.member name :: gathered)
  | .index _ target position => target.accesses? (.index position :: gathered)
  | .call span callee arguments => callee.accesses? (.call arguments span :: gathered)
  | .identifier _ name => some (name, gathered)
  | _ => none

/-- The method calls that a list of accesses consists of, if it has nothing else. -/
def Access.calls? : List Access → Option (List MethodCall)
  | [] => some []
  | .member name :: .call arguments span :: rest => (calls? rest).map (⟨name, arguments, span⟩ :: ·)
  | _ => none

/-- The names up to the first one that is called, and the accesses from there on. -/
def Access.splitNames : List Access → List String × List Access
  | .member name :: rest =>
    match rest with
    | .call .. :: _ => ([], .member name :: rest)
    | _ =>
      let (names, behind) := splitNames rest
      (name :: names, behind)
  | accesses => ([], accesses)

/-- A collection with the calls on it; there has to be one. -/
def CollectionChain.ofAccesses? (collection : CollectionAddress) (accesses : List Access) :
    Option CollectionChain :=
  match Access.calls? accesses with
  | some (first :: chained) => some ⟨collection, first, chained⟩
  | _ => none

/-- The collection that the arguments of `getCollection` name. -/
def CollectionAddress.ofAccessor : List Expr → CollectionAddress
  | [.string _ name] => accessor name
  | _ => unsupported

/-- The collection that an index on `db` names. -/
def CollectionAddress.ofBracket : Expr → CollectionAddress
  | .string _ name => bracket name
  | _ => unsupported

/-- The statement that accesses on `db` make. A method that has a meaning of its own has to end the
statement; behind any other database method anything may follow. -/
def DatabaseStatement.ofAccesses? : List Access → Option DatabaseStatement
  | .member name :: .call arguments span :: rest =>
    let call : MethodCall := ⟨name, arguments, span⟩
    if name = "getCollection" ∧ rest ≠ [] then
      (CollectionChain.ofAccesses? (.ofAccessor arguments) rest).map collection
    else
      match DatabaseCommand.ofName? name, rest with
      | some handled, [] => some (command handled call)
      | some _, _ :: _ => none
      | none, _ => some (method call)
  | .index position :: rest =>
    (CollectionChain.ofAccesses? (.ofBracket position) rest).map collection
  | .member name :: rest =>
    let (names, behind) := Access.splitNames (.member name :: rest)
    (CollectionChain.ofAccesses? (.member (".".intercalate names)) behind).map collection
  | _ => none

/-- The database statement that an expression is, if it is one. -/
def DatabaseStatement.ofExpr? (e : Expr) : Option DatabaseStatement :=
  match e.accesses? [] with
  | some (root, accesses) => if root = "db" then ofAccesses? accesses else none
  | none => none

def StatementKind.ofExpr (e : Expr) : StatementKind :=
  match DatabaseStatement.ofExpr? e with
  | some statement => database statement
  | none => expression e

end MongoShell
