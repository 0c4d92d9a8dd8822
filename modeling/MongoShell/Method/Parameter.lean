import MongoShell.Method.Argument

/-!
Positional parameters of methods. Each sets one field of the operation from the argument in its
place.
-/

namespace MongoShell

inductive Parameter where
  | filter
  | requiredFilter
  | projection
  | pipeline
  | distinctField
  | document
  | documents
  | update
  | replacement
  | indexKeys
  | index
  | indexName
  | newName
  | dropTarget
  | collectionName
deriving DecidableEq, Repr

/-- Whether a key is an operator's name. -/
def isOperatorKey (key : String) : Bool := key.toList.head? == some '$'

/-- A document of update operators: it has some, and nothing else. -/
def checkOperators (document : Document) : Except ArgumentFault Update :=
  if document = [] then .error (.empty "update document")
  else
    match document.keys.find? (! isOperatorKey ·) with
    | some key => .error (.notAnOperator key)
    | none => .ok (.document document)

/-- A change, from a value that is a document of operators or an array of pipeline stages. -/
def Value.asUpdate : Value → Except ArgumentFault Update
  | document entries => checkOperators entries
  | array items => (asDocuments "update pipeline" (array items)).map .pipeline
  | value => .error (.wrongType "update" .update value.typeName)

/-- A document that takes the place of another; it has no operators. -/
def Value.asReplacement (value : Value) : Except ArgumentFault Document := do
  let document ← value.asDocument "replacement"
  match document.keys.find? isOperatorKey with
  | some key => .error (.operatorInReplacement key)
  | none => .ok document

/-- A document or list that has to hold something. -/
def refuseEmpty {α : Type} (what : String) (items : List α) : Except ArgumentFault (List α) :=
  if items.isEmpty then .error (.empty what) else .ok items

namespace Parameter

/-- Set the field of a parameter from its argument. -/
def set (fresh : Fresh) (argument : Option Expr) (op : Operation) :
    Parameter → Except CallFault Operation
  | filter => do
    let filter ← Argument.read fresh argument (readGiven (Value.asDocument "filter"))
    .ok { op with filter }
  | requiredFilter => do
    let filter ←
      Argument.read fresh argument (readRequired (.missing "filter") (Value.asDocument "filter"))
    .ok { op with filter := some filter }
  | projection => do
    let projection ← Argument.read fresh argument (readGiven (Value.asDocument "projection"))
    .ok { op with projection }
  | pipeline => do
    let stages ← Argument.read fresh argument (readGiven (Value.asDocuments "pipeline"))
    .ok { op with pipeline := some (stages.getD []) }
  | distinctField => do
    let field ← Argument.name "field name" argument
    .ok { op with distinctField := some field }
  | document => do
    let document ←
      Argument.read fresh argument
        (readRequired (.missing "document") (Value.asDocument "document"))
    .ok { op with document := some document }
  | documents => do
    let documents ←
      Argument.read fresh argument
        (readRequired (.missing "an array of documents") fun value => do
          let documents ← value.asDocuments "documents"
          refuseEmpty "documents" documents)
    .ok { op with documents := some documents }
  | update => do
    let update ← Argument.read fresh argument (readRequired (.missing "update") Value.asUpdate)
    .ok { op with update := some update }
  | replacement => do
    let replacement ←
      Argument.read fresh argument (readRequired (.missing "replacement") Value.asReplacement)
    .ok { op with replacement := some replacement }
  | indexKeys => do
    let keys ←
      Argument.read fresh argument
        (readRequired (.missing "index keys") fun value => do
          let keys ← value.asDocument "index keys"
          refuseEmpty "index keys" keys)
    .ok { op with indexKeys := some keys }
  | index => do
    let index ←
      Argument.read fresh argument
        (readRequired (.missing "an index name or key document") (Value.asIndex "index"))
    .ok { op with index := some index }
  | indexName => do
    let name ← Argument.literal? "index name" argument
    .ok { op with index := name.map .name }
  | newName => do
    let name ← Argument.name "new collection name" argument
    .ok { op with newName := some name }
  | dropTarget => do
    let dropTarget ← Argument.read fresh argument (readGiven (Value.asBoolean "dropTarget"))
    .ok { op with dropTarget }
  | collectionName => do
    let name ← Argument.name "collection name" argument
    .ok { op with collection := name }

/-- Set the fields of parameters in order from a list of arguments. -/
def setAll (fresh : Fresh) :
    List Parameter → List Expr → Operation → Except CallFault Operation
  | [], _, op => .ok op
  | parameter :: rest, arguments, op => do
    let op ← parameter.set fresh arguments.head? op
    setAll fresh rest arguments.tail op

end Parameter

end MongoShell
