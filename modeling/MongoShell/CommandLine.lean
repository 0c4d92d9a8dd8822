import MongoShell.Operation.ToJson
import MongoShell.Operation.OfStatement

/-!
The command line: statements come as arguments, or as a script on the standard input, and operations
go out as JSON, one after the other. Nothing goes out unless every statement asks for an operation.
-/

namespace MongoShell

namespace CommandLine

/-- What the arguments ask for. -/
inductive Invocation where
  | operations (pretty : Bool) (statements : List String)
  | version
  | help
  | misuse (complaint : String)
deriving DecidableEq, Repr

/-- Add a statement to those that come behind it. -/
def Invocation.addStatement (statement : String) : Invocation → Invocation
  | operations pretty statements => operations pretty (statement :: statements)
  | other => other

/-- Whether an argument is a group of one-letter options with this letter first. The first letter
decides, since every such option ends the reading. -/
def startsGroup (letter : Char) (argument : String) : Bool :=
  argument.toList.take 2 == ['-', letter]

/-- Read the arguments from left to right. Behind two hyphens everything is a statement. -/
def Invocation.ofArguments (pretty : Bool) : List String → Invocation
  | [] => .operations pretty []
  | argument :: rest =>
    if argument = "--" then .operations pretty rest
    else if argument = "--pretty" then
      if pretty then .misuse "the argument '--pretty' cannot be used multiple times"
      else ofArguments true rest
    else if argument = "--version" ∨ startsGroup 'V' argument then .version
    else if argument = "--help" ∨ startsGroup 'h' argument then .help
    else if argument.toList.head? = some '-' ∧ argument ≠ "-" then
      .misuse ("unexpected argument '" ++ argument ++ "' found")
    else (ofArguments pretty rest).addStatement argument

/-- What the program writes and the code it ends with. -/
structure Output where
  code : Nat
  stdout : String
  stderr : String
deriving DecidableEq, Repr

def versionText : String := "shellmql_core 0.1.0\n"

def usageText : String := "Usage: shellmql [OPTIONS] [STATEMENTS]...\n"

def helpText : String :=
  "Translate MongoDB shell statements into structured operations\n\n" ++ usageText
    ++ "\nArguments:\n"
    ++ "  [STATEMENTS]...  Statements to translate. Reads a script from stdin when omitted\n"
    ++ "\nOptions:\n"
    ++ "      --pretty   Pretty-print the JSON output\n"
    ++ "  -h, --help     Print help\n"
    ++ "  -V, --version  Print version\n"

/-- The label of an error in a report. -/
def errorLabel : StatementError → String
  | .malformed _ => "syntax error:"
  | .planned _ _ => "not yet supported:"
  | e => e.kind ++ ":"

/-- The text of an error in a report. -/
def errorText : StatementError → String
  | .malformed e => e.message
  | e => e.message

/-- The text of an operation, on one line or indented. -/
def render (pretty : Bool) (op : Operation) : List Char :=
  if pretty then op.toJson.indented 0 else op.toJson.compact

/-- What is written for operations, or for the error of a statement that asks for none. -/
def report (pretty : Bool) : Except StatementError (List Operation) → Output
  | .ok operations =>
    ⟨0, String.ofList (operations.flatMap fun op => render pretty op ++ ['\n']), ""⟩
  | .error e => ⟨1, "", errorLabel e ++ " " ++ errorText e ++ "\n"⟩

/-- The operations of statements, each a text of its own; the first one that has none is
reported. -/
def operationsOf (fresh : Nat → Fresh) (statements : List String) :
    Except StatementError (List Operation) :=
  statements.zipIdx.mapM fun (statement, index) => Operation.ofSource (fresh index) statement

/-- Run the program. The input is a script, and counts only where there are no statements; `fresh`
gives each statement its made-up values. -/
def run (fresh : Nat → Fresh) (input : String) : Invocation → Output
  | .operations pretty [] => report pretty (Operation.ofScript (fresh 0) input)
  | .operations pretty statements => report pretty (operationsOf fresh statements)
  | .version => ⟨0, versionText, ""⟩
  | .help => ⟨0, helpText, ""⟩
  | .misuse complaint =>
    ⟨2, "", "error: " ++ complaint ++ "\n\n" ++ usageText
      ++ "\nFor more information, try '--help'.\n"⟩

end CommandLine

end MongoShell
