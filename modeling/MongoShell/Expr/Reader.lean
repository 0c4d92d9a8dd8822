import MongoShell.Expr
import MongoShell.SyntaxError
import MongoShell.Token.Literal

/-!
Reading an expression one token at a time. The state of a reading is a mode (what may come next) and
a stack of frames (what surrounds it, innermost first), so that each token is looked at once and a
fault is found at the first token that no expression can go on with.
-/

namespace MongoShell

/-- Something opened around the value being read. Lists are kept with the latest item first. -/
inductive Frame where
  /-- Behind `(`. -/
  | group
  /-- Behind `[` and some elements. -/
  | array (opening : Span) (elements : List Expr)
  /-- Behind the key and colon of a property. -/
  | property (opening : Span) (earlier : List Property) (key : String) (keySpan : Span)
  /-- Behind the `[` of an index. -/
  | index (target : Expr)
  /-- Behind the `(` of a call and some arguments; a constructor call remembers where `new`
  stands. -/
  | arguments (keyword : Option Span) (callee : Expr) (values : List Expr)

/-- What may come next. -/
inductive Mode where
  /-- A value has to start. -/
  | value
  /-- A value may start, or the list around it ends. -/
  | item
  /-- Behind a sign: the number. -/
  | signed (sign : Token)
  /-- Behind a value that an access or a call may follow. -/
  | operand (e : Expr)
  /-- Behind a value that nothing extends. -/
  | complete (e : Expr)
  /-- Behind the dot of a member access: the name. -/
  | member (target : Expr)
  /-- Behind `new`: the name. -/
  | keyword (span : Span)
  /-- Behind `new` and a name. -/
  | constructor (keyword : Span) (name : Token)
  /-- Behind `{` or a comma: a key, or the end of the object. -/
  | key (opening : Span) (earlier : List Property)
  /-- Behind a key: the colon. -/
  | colon (opening : Span) (earlier : List Property) (key : String) (keySpan : Span)

/-- What a reading has come to. -/
inductive Progress where
  | reading (mode : Mode) (frames : List Frame)
  /-- The value ended in front of the token at hand, which is no part of it. -/
  | finished (e : Expr)

/-- The fault of meeting a token where something else is expected. -/
def Token.unexpected (t : Token) (expected : Expectation) : SyntaxError :=
  .under t.span <|
    if t.kind = .endOfInput then .unexpectedEnd expected
    else .unexpectedToken t.kind t.text expected

/-- The contents of a string token. -/
def Token.stringContents (t : Token) : Except SyntaxError String :=
  match StringLiteral.contents? t.text with
  | some value => .ok value
  | none => .error (.under t.span (.unpairedSurrogate t.text))

namespace Mode

/-- A value of one identifier; `new` is left out, since it starts one. -/
def wordValue (span : Span) (name : String) : Expr :=
  if name = "true" then .boolean span true
  else if name = "false" then .boolean span false
  else if name = "null" then .null span
  else .identifier span name

/-- The mode and frames behind a token that starts a value without a sign. -/
def startPrimary (frames : List Frame) (t : Token) : Except SyntaxError (Mode × List Frame) :=
  match t.kind with
  | .identifier =>
    if t.text = "new" then .ok (.keyword t.span, frames)
    else .ok (.operand (wordValue t.span t.text), frames)
  | .string => t.stringContents.map fun contents => (.operand (.string t.span contents), frames)
  | .number => .ok (.operand (.number t.span t.text), frames)
  | .regex =>
    let (pattern, flags) := splitRegex t.text
    .ok (.operand (.regex t.span pattern flags), frames)
  | .leftBrace => .ok (.key t.span [], frames)
  | .leftBracket => .ok (.item, .array t.span [] :: frames)
  | .leftParen => .ok (.value, .group :: frames)
  | _ => .error (t.unexpected .value)

/-- The mode and frames behind a token that starts a value. -/
def start (frames : List Frame) (t : Token) : Except SyntaxError (Mode × List Frame) :=
  if t.kind = .plus ∨ t.kind = .minus then .ok (.signed t, frames)
  else startPrimary frames t

def closeArray (opening : Span) (elements : List Expr) (closing : Span) : Expr :=
  .array (opening.through closing) elements.reverse

def closeObject (opening : Span) (properties : List Property) (closing : Span) : Expr :=
  .object (opening.through closing) properties.reverse

/-- The call whose arguments are closed here, or the construction around it. -/
def closeCall (word? : Option Span) (callee : Expr) (values : List Expr) (closing : Span) : Expr :=
  let span := callee.span.through closing
  let call := Expr.call span callee values.reverse
  match word? with
  | none => call
  | some word => .construct (word.through span) call

/-- A value has ended in front of this token: what surrounds the value takes it. -/
def deliver (frames : List Frame) (e : Expr) (t : Token) : Except SyntaxError Progress :=
  match frames with
  | [] => .ok (.finished e)
  | .group :: frames =>
    if t.kind = .rightParen then .ok (.reading (.operand e) frames)
    else .error (t.unexpected (.token .rightParen))
  | .index target :: frames =>
    if t.kind = .rightBracket then
      .ok (.reading (.operand (.index (target.span.through t.span) target e)) frames)
    else .error (t.unexpected (.token .rightBracket))
  | .array opening elements :: frames =>
    if t.kind = .comma then .ok (.reading .item (.array opening (e :: elements) :: frames))
    else if t.kind = .rightBracket then
      .ok (.reading (.operand (closeArray opening (e :: elements) t.span)) frames)
    else .error (t.unexpected (.token .rightBracket))
  | .arguments word callee values :: frames =>
    if t.kind = .comma then .ok (.reading .item (.arguments word callee (e :: values) :: frames))
    else if t.kind = .rightParen then
      .ok (.reading (.operand (closeCall word callee (e :: values) t.span)) frames)
    else .error (t.unexpected (.token .rightParen))
  | .property opening earlier name keySpan :: frames =>
    let properties := .mk name (keySpan.through e.span) e :: earlier
    if t.kind = .comma then .ok (.reading (.key opening properties) frames)
    else if t.kind = .rightBrace then
      .ok (.reading (.operand (closeObject opening properties t.span)) frames)
    else .error (t.unexpected (.token .rightBrace))

/-- This token follows a value that an access or a call may extend. -/
def afterOperand (frames : List Frame) (e : Expr) (t : Token) : Except SyntaxError Progress :=
  match t.kind with
  | .dot => .ok (.reading (.member e) frames)
  | .leftBracket => .ok (.reading .value (.index e :: frames))
  | .leftParen => .ok (.reading .item (.arguments none e [] :: frames))
  | _ => deliver frames e t

/-- The mode and frames behind a token that starts an item of the list around it, or closes it. -/
def startItem (frames : List Frame) (t : Token) : Except SyntaxError (Mode × List Frame) :=
  match frames, t.kind with
  | .array opening elements :: frames, .rightBracket =>
    .ok (.operand (closeArray opening elements t.span), frames)
  | .arguments word callee values :: frames, .rightParen =>
    .ok (.operand (closeCall word callee values t.span), frames)
  | frames, _ => start frames t

/-- The mode behind a token that is a key of an object, or closes the object. -/
def startProperty (opening : Span) (earlier : List Property) (t : Token) :
    Except SyntaxError Mode :=
  match t.kind with
  | .rightBrace => .ok (.operand (closeObject opening earlier t.span))
  | .identifier | .number => .ok (.colon opening earlier t.text t.span)
  | .string => t.stringContents.map fun name => .colon opening earlier name t.span
  | _ => .error (t.unexpected .propertyName)

/-- One token further. -/
def step (frames : List Frame) (t : Token) : Mode → Except SyntaxError Progress
  | value => (start frames t).map fun (mode, frames) => .reading mode frames
  | item => (startItem frames t).map fun (mode, frames) => .reading mode frames
  | signed sign =>
    if t.kind = .number ∨ (t.kind = .identifier ∧ t.text = "Infinity") then
      let lexeme := if sign.kind = .minus then "-" ++ t.text else t.text
      .ok (.reading (.complete (.number (sign.span.through t.span) lexeme)) frames)
    else .error (t.unexpected .number)
  | operand e => afterOperand frames e t
  | complete e => deliver frames e t
  | member target =>
    if t.kind = .identifier then
      .ok (.reading (.operand (.member (target.span.through t.span) target t.text)) frames)
    else .error (t.unexpected .propertyName)
  | keyword span =>
    if t.kind = .identifier then .ok (.reading (.constructor span t) frames)
    else .error (t.unexpected .constructorName)
  | constructor word name =>
    let target := Expr.identifier name.span name.text
    if t.kind = .leftParen then
      .ok (.reading .item (.arguments (some word) target [] :: frames))
    else afterOperand frames (.construct (word.through name.span) target) t
  | key opening earlier => (startProperty opening earlier t).map (.reading · frames)
  | colon opening earlier name keySpan =>
    if t.kind = .colon then
      .ok (.reading .value (.property opening earlier name keySpan :: frames))
    else .error (t.unexpected (.token .colon))

end Mode

end MongoShell
