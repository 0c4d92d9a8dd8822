import MongoShell.Request.OfOperation
import MongoShell.Operation.OfStatement

/-!
Execution of operations against a client. A client answers a request after some time; an operation
makes at most one request, and the deadline is for that request. A client may answer by any error,
by one with which an operation is refused or a deadline passes as well, and that is handed on as it
is.
-/

namespace MongoShell

/-- The digits of a whole number of units, of which ten to the power of `places` make a greater one,
as a decimal number of those with as many places as are needed. -/
def unitText (places count : Nat) : String :=
  let unit := Nat.pow 10 places
  let fraction := ((paddedDigits places (count % unit)).reverse.dropWhile (· == '0')).reverse
  toString (count / unit) ++ String.ofList (if fraction = [] then [] else '.' :: fraction)

/-- A length of time in the greatest unit of which there is a whole one. -/
def durationText (nanoseconds : Nat) : String :=
  if nanoseconds < 1000 then toString nanoseconds ++ "ns"
  else if nanoseconds < 1000000 then unitText 3 nanoseconds ++ "\u00b5s"
  else if nanoseconds < 1000000000 then unitText 6 nanoseconds ++ "ms"
  else unitText 9 nanoseconds ++ "s"

inductive ExecutionError where
  | unknownOperation
  | invalidOperation (detail : String)
  /-- The deadline, in nanoseconds, has passed. -/
  | timeout (limit : Nat)
  | client (text : String)
  | statement (report : StatementReport)
deriving DecidableEq, Repr

namespace ExecutionError

/-- The error's class in one word. -/
def kind : ExecutionError → String
  | unknownOperation => "unknown_operation"
  | invalidOperation _ => "invalid_operation"
  | timeout _ => "timeout"
  | client _ => "client"
  | statement _ => "translation"

def message : ExecutionError → String
  | unknownOperation => "Unknown operation: the statement was not translated"
  | invalidOperation detail => "Invalid operation: " ++ detail
  | timeout limit => "Operation timed out after " ++ durationText limit
  | client text => "Client error: " ++ text
  | statement report => report.message

end ExecutionError

/-- The error that an operation is refused with. -/
def OperationFault.error : OperationFault → ExecutionError
  | noOperation => .unknownOperation
  | missing kind what => .invalidOperation (kind.name ++ " requires " ++ what)
  | negative what => .invalidOperation (what ++ " must not be negative")

/-- An answer of the client, with the nanoseconds that it takes. -/
structure Response (α : Type) where
  delay : Nat
  answer : Except ExecutionError α

/-- A client answers each request by a reply of the request's shape, or by an error. -/
abbrev Client (δ ω : Type) := (request : Request) → Response (request.shape.Reply δ ω)

structure Settings where
  /-- The most rows that `find` returns and `countDocuments` counts. -/
  rowCap : Option Int := none
  /-- The deadline for a request, in nanoseconds. -/
  timeout : Option Nat := none
deriving DecidableEq, Repr

/-- What an executed operation gives. -/
structure ResultSet (δ ω : Type) where
  kind : OperationKind
  statement : String
  rows : List (ReplyRow δ ω)
deriving Repr

namespace ResultSet

variable {δ ω : Type}

/-- The rows that are documents. -/
def documents (result : ResultSet δ ω) : List δ := result.rows.filterMap ReplyRow.document?

/-- The count, of operations that count. -/
def count? (result : ResultSet δ ω) : Option Int64 :=
  match result.kind, result.rows with
  | .countDocuments, .int64 n :: _ => some n
  | .estimatedDocumentCount, .int64 n :: _ => some n
  | _, _ => none

end ResultSet

/-- What an execution did and what came of it. -/
structure Execution (δ ω : Type) where
  /-- The request that was sent, if one was. -/
  sent : Option Request
  outcome : Except ExecutionError (ResultSet δ ω)

namespace Settings

variable {δ ω : Type}

/-- What comes of a response: a late one counts as none, whatever it holds, and one in time is
handed on as it is. -/
def await {α : Type} (settings : Settings) (response : Response α) : Except ExecutionError α :=
  match settings.timeout with
  | some limit => if limit < response.delay then .error (.timeout limit) else response.answer
  | none => response.answer

/-- Execute an operation. A cap given for this execution takes the place of the one in the
settings. -/
def execute (settings : Settings) (client : Client δ ω) (op : Operation) (statement : String)
    (rowCap : Option Int) : Execution δ ω :=
  match op.request (rowCap.or settings.rowCap) with
  | .error fault => ⟨none, .error fault.error⟩
  | .ok request =>
    ⟨some request,
      (settings.await (client request)).map fun reply =>
        ⟨op.kind, statement, request.shape.rows reply⟩⟩

/-- Execute the operation that a statement asks for. -/
def run (settings : Settings) (client : Client δ ω) (fresh : Fresh) (statement : String)
    (rowCap : Option Int) : Execution δ ω :=
  match Operation.ofSource fresh statement with
  | .error e => ⟨none, .error (.statement e.report)⟩
  | .ok op => settings.execute client op statement rowCap

end Settings

end MongoShell
