import MongoShell.Source

/-!
Tokens: the words and marks of the shell language, each with its text and its place in the source.
-/

namespace MongoShell

inductive TokenKind where
  | identifier
  | string
  | number
  | regex
  | leftParen
  | rightParen
  | leftBracket
  | rightBracket
  | leftBrace
  | rightBrace
  | comma
  | dot
  | colon
  | semicolon
  | plus
  | minus
  | endOfInput
deriving DecidableEq, Repr

namespace TokenKind

/-- The kind in words, as messages name it. -/
def describe : TokenKind → String
  | identifier => "identifier"
  | string => "string"
  | number => "number"
  | regex => "regular expression"
  | leftParen => "'('"
  | rightParen => "')'"
  | leftBracket => "'['"
  | rightBracket => "']'"
  | leftBrace => "'\x7b'"
  | rightBrace => "'\x7d'"
  | comma => "','"
  | dot => "'.'"
  | colon => "':'"
  | semicolon => "';'"
  | plus => "'+'"
  | minus => "'-'"
  | endOfInput => "end of input"

/-- The mark that a character is by itself. -/
def ofMark? : Char → Option TokenKind
  | '(' => some leftParen
  | ')' => some rightParen
  | '[' => some leftBracket
  | ']' => some rightBracket
  | '{' => some leftBrace
  | '}' => some rightBrace
  | ',' => some comma
  | '.' => some dot
  | ':' => some colon
  | ';' => some semicolon
  | '+' => some plus
  | '-' => some minus
  | _ => none

end TokenKind

structure Token where
  kind : TokenKind
  text : String
  span : Span
deriving DecidableEq, Repr

end MongoShell
