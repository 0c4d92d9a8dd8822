import MongoShell.Method.Option
import MongoShell.Method.Parameter
import MongoShell.Statement

/-!
The methods of collections and of the database handle. A method is described by the kind of
operation it makes, its positional parameters and its options; a call sets the fields of an
operation in that order.
-/

namespace MongoShell

structure Method where
  /-- The kind of the operation; the method has the same name. -/
  kind : OperationKind
  parameters : List Parameter
  /-- The options of the argument behind the parameters, for methods that have such an argument. -/
  options : Option (List MethodOption)
  /-- Whether all arguments have to be given. -/
  exact : Bool
deriving Repr

namespace Method

def name (method : Method) : String := method.kind.name

/-- The number of arguments that a method takes. -/
def capacity (method : Method) : Nat :=
  method.parameters.length + (if method.options.isSome then 1 else 0)

/-- A method whose last argument is a document of options. -/
def withOptions (kind : OperationKind) (parameters : List Parameter) (options : List MethodOption) :
    Method :=
  ⟨kind, parameters, some options, false⟩

/-- The methods of a collection. -/
def ofCollection : List Method :=
  [withOptions .find [.filter, .projection] [.hint, .max, .min, .maxTimeMS],
    withOptions .findOne [.filter, .projection] [.hint, .max, .min, .maxTimeMS],
    withOptions .countDocuments [.filter] [.hint, .limit, .skip, .maxTimeMS],
    withOptions .estimatedDocumentCount [] [.maxTimeMS],
    withOptions .aggregate [.pipeline] [.hint, .maxTimeMS],
    withOptions .distinct [.distinctField, .filter] [.maxTimeMS],
    withOptions .insertOne [.document] [.bypassDocumentValidation],
    withOptions .insertMany [.documents] [.ordered, .bypassDocumentValidation],
    withOptions .updateOne [.requiredFilter, .update]
      [.upsert, .arrayFilters, .hint, .bypassDocumentValidation],
    withOptions .updateMany [.requiredFilter, .update]
      [.upsert, .arrayFilters, .hint, .bypassDocumentValidation],
    withOptions .replaceOne [.requiredFilter, .replacement]
      [.upsert, .hint, .bypassDocumentValidation],
    withOptions .deleteOne [.requiredFilter] [.hint],
    withOptions .deleteMany [.requiredFilter] [.hint],
    withOptions .findOneAndUpdate [.requiredFilter, .update]
      [.projection, .sort, .upsert, .returnDocument, .arrayFilters, .hint, .maxTimeMS,
        .bypassDocumentValidation],
    withOptions .findOneAndReplace [.requiredFilter, .replacement]
      [.projection, .sort, .upsert, .returnDocument, .hint, .maxTimeMS, .bypassDocumentValidation],
    withOptions .findOneAndDelete [.requiredFilter] [.projection, .sort, .hint, .maxTimeMS],
    withOptions .createIndex [.indexKeys] [.name, .unique, .sparse, .expireAfterSeconds],
    ⟨.dropIndex, [.index], none, true⟩,
    ⟨.dropIndexes, [.indexName], none, false⟩,
    ⟨.getIndexes, [], none, true⟩,
    withOptions .drop [] [],
    ⟨.renameCollection, [.newName, .dropTarget], none, false⟩]

/-- The method of a collection that has a name. -/
def ofName? (name : String) : Option Method := ofCollection.find? (·.name == name)

/-- The method that a database command stands for. -/
def ofCommand : DatabaseCommand → Method
  | .getCollectionNames => ⟨.getCollectionNames, [], none, true⟩
  | .getCollectionInfos =>
    withOptions .getCollectionInfos [.filter] [.nameOnly, .authorizedCollections]
  | .createCollection =>
    withOptions .createCollection [.collectionName] [.capped, .size, .maxDocuments]
  | .dropDatabase => ⟨.dropDatabase, [], none, true⟩

/-- Refuse a wrong number of arguments. -/
def checkCount (method : Method) (count : Nat) : Except CallFault Unit :=
  if method.exact then
    if count = method.capacity then .ok ()
    else .error (.argument (.wrongCount method.capacity count))
  else if count ≤ method.capacity then .ok ()
  else .error (.argument (.tooMany method.capacity count))

/-- Set the fields of the options, whose document is the argument behind the parameters. -/
def setOptions (method : Method) (fresh : Fresh) (arguments : List Expr) (op : Operation) :
    Except CallFault Operation :=
  match method.options with
  | none => .ok op
  | some allowed => do
    let options ←
      Argument.read fresh (arguments[method.parameters.length]?)
        (readGiven (Value.asDocument "options"))
    MethodOption.setAll allowed (options.getD []) op

/-- A capped collection has to have a size. -/
def checkCapped (op : Operation) : Except CallFault Unit :=
  if op.capped = some true ∧ op.size = none then .error (.argument .cappedWithoutSize) else .ok ()

/-- The operation that a call makes out of one with no more than a collection. -/
def call (method : Method) (fresh : Fresh) (arguments : List Expr) (op : Operation) :
    Except CallFault Operation := do
  method.checkCount arguments.length
  let op ← Parameter.setAll fresh method.parameters arguments op
  let op ← method.setOptions fresh arguments op
  checkCapped op
  .ok { op with kind := method.kind }

end Method

end MongoShell
