import MongoShell.Token

/-!
Syntax errors. An error is a cause at a line and column; what a report shows of it (the message, the
offending text, what would have been valid) is read off the cause. A report may also stand alone:
one that a client hands on need not have a cause among those here.
-/

namespace MongoShell

/-- What would have been valid where something else stands. -/
inductive Expectation where
  | value
  | propertyName
  | number
  | constructorName
  | token (kind : TokenKind)
  | endOfStatement
deriving DecidableEq, Repr

def Expectation.describe : Expectation → String
  | value => "value"
  | propertyName => "property name"
  | number => "number"
  | constructorName => "constructor name"
  | token kind => kind.describe
  | endOfStatement => "';' or end of statement"

inductive SyntaxFault where
  /-- A number ends where the digits of its exponent should stand. -/
  | bareExponent (number : String)
  | unclosedString (quote : Char)
  | unclosedRegex
  | unclosedComment
  /-- A character that no token starts with. -/
  | strayCharacter (c : Char)
  /-- A string literal names one half of a surrogate pair. -/
  | unpairedSurrogate (literal : String)
  | unexpectedToken (kind : TokenKind) (text : String) (expected : Expectation)
  | unexpectedEnd (expected : Expectation)
  | noStatement
  | secondStatement (text : String)
deriving DecidableEq, Repr

namespace SyntaxFault

def message : SyntaxFault → String
  | bareExponent _ => "malformed number exponent"
  | unclosedString _ => "unterminated string literal"
  | unclosedRegex => "unterminated regular expression"
  | unclosedComment => "unterminated block comment"
  | strayCharacter _ => "unexpected character"
  | unpairedSurrogate _ => "unpaired surrogate in \\u escape"
  | unexpectedToken kind _ _ => "unexpected " ++ kind.describe
  | unexpectedEnd _ => "unexpected end of input"
  | noStatement => "empty statement"
  | secondStatement _ => "only one statement can be translated at a time"

/-- The offending text, where there is one to show. -/
def found? : SyntaxFault → Option String
  | bareExponent number => some number
  | strayCharacter c => some (String.singleton c)
  | unpairedSurrogate literal => some literal
  | unexpectedToken _ text _ => some text
  | secondStatement text => some text
  | _ => none

/-- What would have been valid, where that can be said. -/
def expected? : SyntaxFault → Option String
  | bareExponent _ => some "digits after the exponent"
  | unclosedString quote => some ("closing " ++ String.singleton quote)
  | unclosedRegex => some "closing '/'"
  | unclosedComment => some "'*/'"
  | unexpectedToken _ _ expected => some expected.describe
  | unexpectedEnd expected => some expected.describe
  | noStatement => some "a shell statement"
  | _ => none

end SyntaxFault

/-- What is told of a syntax error. -/
structure SyntaxReport where
  line : Nat
  column : Nat
  message : String
  found : Option String
  expected : Option String
deriving DecidableEq, Repr

/-- One line of text: the place, the message, then the offending text and the expectation if there
are such. -/
def SyntaxReport.text (report : SyntaxReport) : String :=
  "line " ++ toString report.line ++ ":" ++ toString report.column ++ " " ++ report.message
    ++ (match report.found with
      | some found => ", found '" ++ found ++ "'"
      | none => "")
    ++ (match report.expected with
      | some expected => ", expected " ++ expected
      | none => "")

structure SyntaxError where
  line : Nat
  column : Nat
  fault : SyntaxFault
deriving DecidableEq, Repr

namespace SyntaxError

/-- A fault reported at the first character of a span. -/
def under (span : Span) (fault : SyntaxFault) : SyntaxError := ⟨span.line, span.column, fault⟩

/-- What is told of the error. -/
def report (e : SyntaxError) : SyntaxReport :=
  ⟨e.line, e.column, e.fault.message, e.fault.found?, e.fault.expected?⟩

def message (e : SyntaxError) : String := e.report.text

end SyntaxError

end MongoShell
