import MongoShell.Proofs.Checked.Literal
import MongoShell.Proofs.Checked.Scan
import MongoShell.Script

/-! Reading statements by recursive descent. The tokens are numbered and have no texts: a token is
fetched by its number, and its text, like that of a statement, is cut out of the source by its span.
One reader calls another where the one reads a part of what the other reads, and a bound on the
depth of expressions within expressions stands for the unbounded recursion. -/

namespace MongoShell.Checked

/-- What statements are read from: the bytes of a source and its tokens. -/
structure Tape where
  bytes : List UInt8
  tokens : List BareToken

/-- A reading of tokens, from the number of those that have been passed. -/
abbrev Reading (α : Type) := StateT Nat Checked α

namespace Tape

variable (tape : Tape)

/-! Tokens -/

def current : Reading BareToken := fun pos => do return (← get tape.tokens pos, pos)

def previous : Reading BareToken := fun pos => do return (← get tape.tokens (← sub pos 1), pos)

/-- The kind of the token so far ahead. -/
def peekKind (ahead : Nat) : Reading TokenKind := fun pos => do
  return ((← get tape.tokens (pos + ahead)).kind, pos)

/-- Pass the current token, unless the input ends here. -/
def advance : Reading BareToken := fun pos => do
  let t ← get tape.tokens pos
  return (t, if t.kind = .endOfInput then pos else pos + 1)

def check (kind : TokenKind) : Reading Bool := do return (← tape.current).kind == kind

def textUnder (span : Span) : Reading String := slice tape.bytes span.start span.stop

def checkWord (word : String) : Reading Bool := do
  let t ← tape.current
  if t.kind = .identifier then return (← tape.textUnder t.span) == word else return false

def unexpected {α : Type} (expected : Expectation) : Reading α := do
  let t ← tape.current
  if t.kind = .endOfInput then refuse (.under t.span (.unexpectedEnd expected))
  else refuse (.under t.span (.unexpectedToken t.kind (← tape.textUnder t.span) expected))

def expect (kind : TokenKind) : Reading BareToken := do
  if ← tape.check kind then tape.advance else tape.unexpected (.token kind)

/-- The contents of a string token. -/
def stringValue (t : BareToken) : Reading String := do
  let text ← tape.textUnder t.span
  match ← contents? text with
  | some value => return value
  | none => refuse (.under t.span (.unpairedSurrogate text))

/-! Lists and objects -/

section Nested

variable (nested : Reading Expr)

/-- The items in front of the token that closes a list. -/
def items (closing : TokenKind) : Nat → Reading (List Expr)
  | 0 => breach .rounds
  | rounds + 1 => do
    if ← tape.check closing then return []
    else
      let e ← nested
      if ← tape.check .comma then
        let _ ← tape.advance
        return e :: (← items closing rounds)
      else return [e]

def array : Reading Expr := do
  let opening ← tape.expect .leftBracket
  let elements ← tape.items nested .rightBracket tape.tokens.length
  let closing ← tape.expect .rightBracket
  return .array (opening.span.through closing.span) elements

def arguments : Reading (List Expr) := do
  let _ ← tape.expect .leftParen
  let values ← tape.items nested .rightParen tape.tokens.length
  let _ ← tape.expect .rightParen
  return values

/-- The name that a key gives a property. -/
def keyName (t : BareToken) : Reading String :=
  match t.kind with
  | .identifier | .number => tape.textUnder t.span
  | .string => tape.stringValue t
  | _ => tape.unexpected .propertyName

/-- The members in front of the brace that closes an object. -/
def members : Nat → Reading (List Property)
  | 0 => breach .rounds
  | rounds + 1 => do
    if ← tape.check .rightBrace then return []
    else
      let key ← tape.current
      let name ← tape.keyName key
      let _ ← tape.advance
      let _ ← tape.expect .colon
      let value ← nested
      let property := Property.mk name (key.span.through value.span) value
      if ← tape.check .comma then
        let _ ← tape.advance
        return property :: (← members rounds)
      else return [property]

def object : Reading Expr := do
  let opening ← tape.expect .leftBrace
  let properties ← tape.members nested tape.tokens.length
  let closing ← tape.expect .rightBrace
  return .object (opening.span.through closing.span) properties

/-! Expressions -/

/-- The call of a value, through the last token of its arguments. -/
def call (callee : Expr) : Reading Expr := do
  let values ← tape.arguments nested
  let last ← tape.previous
  return .call (callee.span.through last.span) callee values

/-- A name, or its call. -/
def constructed (name : Expr) : Reading Expr := do
  if ← tape.check .leftParen then tape.call nested name else return name

/-- What is constructed, behind the word `new`. -/
def construct (word : BareToken) : Reading Expr := do
  if ← tape.check .identifier then
    let name ← tape.advance
    let target ← tape.constructed nested (.identifier name.span (← tape.textUnder name.span))
    return .construct (word.span.through target.span) target
  else tape.unexpected .constructorName

/-- A word that is a value, or starts a construction. -/
def word (t : BareToken) : Reading Expr := do
  let _ ← tape.advance
  let name ← tape.textUnder t.span
  if name = "new" then tape.construct nested t else return Mode.wordValue t.span name

/-- A value in parentheses. -/
def group : Reading Expr := do
  let _ ← tape.advance
  let inner ← nested
  let _ ← tape.expect .rightParen
  return inner

def primary : Reading Expr := do
  let t ← tape.current
  match t.kind with
  | .identifier => tape.word nested t
  | .string =>
    let _ ← tape.advance
    return .string t.span (← tape.stringValue t)
  | .number =>
    let _ ← tape.advance
    return .number t.span (← tape.textUnder t.span)
  | .regex =>
    let _ ← tape.advance
    let (pattern, flags) ← splitRegex (← tape.textUnder t.span)
    return .regex t.span pattern flags
  | .leftBrace => tape.object nested
  | .leftBracket => tape.array nested
  | .leftParen => tape.group nested
  | _ => tape.unexpected .value

def member (e : Expr) : Reading Expr := do
  let _ ← tape.advance
  if ← tape.check .identifier then
    let name ← tape.advance
    return .member (e.span.through name.span) e (← tape.textUnder name.span)
  else tape.unexpected .propertyName

def index (e : Expr) : Reading Expr := do
  let _ ← tape.advance
  let position ← nested
  let closing ← tape.expect .rightBracket
  return .index (e.span.through closing.span) e position

/-- The accesses and calls behind a value. -/
def accesses : Nat → Expr → Reading Expr
  | 0, _ => breach .rounds
  | rounds + 1, e => do
    match (← tape.current).kind with
    | .dot => accesses rounds (← tape.member e)
    | .leftBracket => accesses rounds (← tape.index nested e)
    | .leftParen => accesses rounds (← tape.call nested e)
    | _ => return e

end Nested

/-- A sign and its number. -/
def signed : Reading Expr := do
  let sign ← tape.advance
  if (← tape.check .number) || (← tape.checkWord "Infinity") then
    let number ← tape.advance
    let digits ← tape.textUnder number.span
    return .number (sign.span.through number.span)
      (if sign.kind = .minus then "-" ++ digits else digits)
  else tape.unexpected .number

/-- An expression with others in it up to some depth. -/
def expression : Nat → Reading Expr
  | 0 => breach .rounds
  | depth + 1 => do
    let t ← tape.current
    if t.kind = .plus ∨ t.kind = .minus then tape.signed
    else tape.accesses (expression depth) tape.tokens.length (← tape.primary (expression depth))

/-! Statements -/

/-- Whether a statement is a command: the word `show` and another word. -/
def checkCommand : Reading Bool := do
  if ← tape.checkWord "show" then return (← tape.peekKind 1) == .identifier else return false

/-- The command that the word `show` and another one make. -/
def command : Reading StatementKind := do
  let word ← tape.advance
  let target ← tape.advance
  let text ← tape.textUnder (word.span.through target.span)
  return .shell (.ofShow (← tape.textUnder target.span) text)

def statementKind : Reading StatementKind := do
  if ← tape.checkCommand then tape.command
  else return .ofExpr (← tape.expression tape.tokens.length)

def statement : Reading Statement := do
  let first ← tape.current
  let kind ← tape.statementKind
  let span := first.span.through (← tape.previous).span
  return ⟨kind, ← tape.textUnder span, span⟩

def separators : Nat → Reading Unit
  | 0 => breach .rounds
  | rounds + 1 => do
    if ← tape.check .semicolon then
      let _ ← tape.advance
      separators rounds
    else return ()

/-- Behind a statement there has to be something that parts it from the next one. -/
def separation : Reading Unit := do
  let t ← tape.current
  if t.kind = .semicolon ∨ t.kind = .endOfInput then return ()
  else if t.span.line = (← tape.previous).span.line then tape.unexpected .endOfStatement
  else return ()

def statements : Nat → Reading (List Statement)
  | 0 => breach .rounds
  | rounds + 1 => do
    tape.separators tape.tokens.length
    if ← tape.check .endOfInput then return []
    else
      let statement ← tape.statement
      tape.separation
      return statement :: (← statements rounds)

end Tape

/-- The statements of a source. -/
def script (source : String) : Checked (List Statement) := do
  let bytes := utf8 source.toList
  let tape : Tape := ⟨bytes, ← tokens bytes⟩
  (tape.statements tape.tokens.length 0).map (·.1)

end MongoShell.Checked
