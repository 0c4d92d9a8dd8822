import MongoShell.Method.Fault
import MongoShell.SyntaxError

/-!
Why a statement asks for no operation, and how that is reported.
-/

namespace MongoShell

inductive StatementError where
  /-- The text is no statement. -/
  | malformed (e : SyntaxError)
  | unsupported (operation : String) (hint : Option String)
  | planned (operation : String) (hint : Option String)
  | deprecated (operation alternative : String)
  /-- A supported method is called wrongly; it is named as messages name it. -/
  | badCall (method : String) (fault : CallFault)
deriving DecidableEq, Repr

/-- What is told of a statement that asks for no operation. Any texts may stand in a report: one
that a client hands on need not tell of an error of a statement. -/
inductive StatementReport where
  | malformed (errors : List SyntaxReport)
  | unsupported (operation : String) (hint : Option String)
  | planned (operation : String) (hint : Option String)
  | deprecated (operation alternative : String)
  | unsupportedOption (method option : String)
  | invalidArgument (method detail : String)
  /-- The label names the constructor at fault, where one is. -/
  | conversion (label? : Option String) (detail : String)
deriving DecidableEq, Repr

namespace StatementReport

/-- The class of what is told, in one word. -/
def kind : StatementReport → String
  | malformed _ => "parse"
  | unsupported _ _ => "unsupported_operation"
  | planned _ _ => "planned_operation"
  | deprecated _ _ => "deprecated_operation"
  | unsupportedOption _ _ => "unsupported_option"
  | invalidArgument _ _ => "invalid_argument"
  | conversion _ _ => "conversion"

/-- A hint in brackets behind a message. -/
def hintText : Option String → String
  | some hint => " (" ++ hint ++ ")"
  | none => ""

/-- A label in front of a message. -/
def labelText : Option String → String
  | some label => label ++ ": "
  | none => ""

def message : StatementReport → String
  | malformed errors => "Syntax error: " ++ "; ".intercalate (errors.map SyntaxReport.text)
  | unsupported operation hint => "Unsupported operation: " ++ operation ++ hintText hint
  | planned operation hint =>
    "Planned operation: " ++ operation ++ " is not supported yet" ++ hintText hint
  | deprecated operation alternative =>
    "Deprecated operation: " ++ operation ++ ", use " ++ alternative ++ " instead"
  | unsupportedOption method option => "Unsupported option '" ++ option ++ "' for " ++ method
  | invalidArgument method detail => "Invalid argument for " ++ method ++ ": " ++ detail
  | conversion label? detail => "Invalid value: " ++ labelText label? ++ detail

end StatementReport

namespace StatementError

def report : StatementError → StatementReport
  | malformed e => .malformed [e.report]
  | unsupported operation hint => .unsupported operation hint
  | planned operation hint => .planned operation hint
  | deprecated operation alternative => .deprecated operation alternative
  | badCall method (.unsupportedOption key) => .unsupportedOption method key
  | badCall method (.argument fault) => .invalidArgument method fault.message
  | badCall _ (.conversion e) => .conversion e.constructorLabel? e.fault.message

/-- The error's class in one word. -/
def kind (e : StatementError) : String := e.report.kind

def message (e : StatementError) : String := e.report.message

end StatementError

end MongoShell
