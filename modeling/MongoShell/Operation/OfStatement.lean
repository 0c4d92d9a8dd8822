import MongoShell.Method
import MongoShell.Method.Modifier
import MongoShell.Registry.Builtin
import MongoShell.Script
import MongoShell.Statement.Error

/-!
The operation that a statement asks for. Every method is looked up in the registry before its
arguments are looked at, so a method that is planned, deprecated or not supported is reported as
such however it is called.
-/

namespace MongoShell

/-- Refuse a call of a method that the registry does not have as supported. -/
def Registry.check (registry : Registry) (context : CallContext) (call : MethodCall) :
    Except StatementError Unit :=
  match registry.classify context call.name with
  | .supported => .ok ()
  | .planned hint => .error (.planned call.label hint)
  | .unsupported hint => .error (.unsupported call.label hint)
  | .deprecated alternative => .error (.deprecated call.label alternative)

namespace MethodCall

/-- Report a fault as one of this call. -/
def report {α : Type} (call : MethodCall) (outcome : Except CallFault α) :
    Except StatementError α :=
  outcome.mapError (.badCall call.label)

/-- The operation that a method makes of this call. -/
def apply (call : MethodCall) (fresh : Fresh) (method : Option Method) (op : Operation) :
    Except StatementError Operation :=
  match method with
  | some method => call.report (method.call fresh call.arguments op)
  | none => .error (.unsupported call.label none)

/-- The operation changed by this call of a modifier. -/
def modify (call : MethodCall) (fresh : Fresh) (op : Operation) :
    Except StatementError Operation := do
  call.report (Modifier.checkCount call.arguments.length)
  match Modifier.ofName? call.name with
  | some modifier => call.report (modifier.set fresh call.arguments.head? op)
  | none => .error (.unsupported call.label none)

end MethodCall

namespace CollectionChain

/-- The operation of the first call of a chain. -/
def firstOperation (registry : Registry) (fresh : Fresh) (chain : CollectionChain) :
    Except StatementError Operation := do
  let call := chain.first
  registry.check .collection call
  let op ←
    call.apply fresh (Method.ofName? call.name)
      { kind := .unknown, collection := chain.collection.name }
  if op.kind.isCollectionScoped ∧ chain.collection.name = "" then
    call.report (.error (.argument .noCollectionName))
  else .ok op

/-- One more call of a chain: a modifier of a cursor. Nothing else may be chained to. -/
def nextOperation (registry : Registry) (fresh : Fresh) (op : Operation) (call : MethodCall) :
    Except StatementError Operation :=
  if op.kind.isCursor then do
    registry.check .cursor call
    call.modify fresh op
  else do
    registry.check .collection call
    call.report (.error (.argument (.notChainable op.kind)))

def operation (registry : Registry) (fresh : Fresh) (chain : CollectionChain) :
    Except StatementError Operation := do
  let op ← chain.firstOperation registry fresh
  chain.chained.foldlM (nextOperation registry fresh) op

end CollectionChain

def DatabaseStatement.operation (registry : Registry) (fresh : Fresh) :
    DatabaseStatement → Except StatementError Operation
  | collection chain => chain.operation registry fresh
  | command handled call => do
    registry.check .database call
    call.apply fresh (some (Method.ofCommand handled)) { kind := .unknown }
  | method call => do
    registry.check .database call
    .error (.unsupported call.label none)

def ShellCommand.operation : ShellCommand → Except StatementError Operation
  | showDatabases => .ok { kind := .showDatabases }
  | showCollections => .ok { kind := .showCollections }
  | other text => .error (.unsupported text none)

/-- The operation that a statement asks for. -/
def Statement.operation (registry : Registry) (fresh : Fresh) (statement : Statement) :
    Except StatementError Operation :=
  match statement.kind with
  | .shell command => command.operation
  | .database database => database.operation registry fresh
  | .expression _ => .error (.unsupported statement.text none)

namespace Operation

/-- The operation of the one statement of a text. -/
def ofSource (fresh : Fresh) (source : String) : Except StatementError Operation :=
  match Statement.ofSource source with
  | .error e => .error (.malformed e)
  | .ok statement => statement.operation Registry.builtin fresh

/-- The operations of all statements of a script; the first statement that has none is reported. -/
def ofScript (fresh : Fresh) (source : String) : Except StatementError (List Operation) :=
  match Script.ofSource source with
  | .error e => .error (.malformed e)
  | .ok statements => statements.mapM (Statement.operation Registry.builtin fresh)

end Operation

end MongoShell
