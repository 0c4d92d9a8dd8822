import MongoShell.Expr.Reader
import MongoShell.Statement
import MongoShell.Token.Scan

/-!
Scripts: statements parted by semicolons or line breaks. A script is read in one pass over its
tokens, so the fault reported is the first token that no script can go on with.
-/

namespace MongoShell

namespace Script

/-- Where in a script the reading is. -/
inductive Stage where
  /-- In front of a statement. -/
  | between
  /-- Behind the word `show` at the start of a statement. -/
  | shown (word : Token)
  /-- Inside an expression statement that has gone from `first` through `last`. -/
  | inside (first last : Token) (mode : Mode) (frames : List Frame)
  /-- Behind a statement that ended with `last`. -/
  | behind (last : Token)

structure State where
  /-- The statements read so far, the latest first. -/
  statements : List Statement
  stage : Stage

def State.initial : State := ⟨[], .between⟩

namespace State

/-- Count one more statement, which goes from `first` through `last`. -/
def addStatement (source : List Char) (state : State) (first last : Token) (kind : StatementKind)
    (stage : Stage) : State :=
  let span := first.span.through last.span
  ⟨⟨kind, String.ofList (span.slice source), span⟩ :: state.statements, stage⟩

/-- The first token of a statement, or one more separator. -/
def start (state : State) (t : Token) : Except SyntaxError State :=
  if t.kind = .semicolon ∨ t.kind = .endOfInput then .ok { state with stage := .between }
  else if t.kind = .identifier ∧ t.text = "show" then .ok { state with stage := .shown t }
  else
    (Mode.start [] t).map fun (mode, frames) => { state with stage := .inside t t mode frames }

/-- The token behind a statement that ended with `last`: a separator, or anything on a later
line. -/
def separate (state : State) (last t : Token) : Except SyntaxError State :=
  if t.kind = .semicolon ∨ t.kind = .endOfInput then .ok { state with stage := .between }
  else if t.span.line = last.span.line then .error (t.unexpected .endOfStatement)
  else state.start t

/-- One token further in an expression statement. -/
def continueExpression (source : List Char) (state : State) (first last : Token) (mode : Mode)
    (frames : List Frame) (t : Token) : Except SyntaxError State :=
  match mode.step frames t with
  | .error e => .error e
  | .ok (.reading mode frames) => .ok { state with stage := .inside first t mode frames }
  | .ok (.finished e) =>
    (state.addStatement source first last (.ofExpr e) (.behind last)).separate last t

/-- One token further. -/
def step (source : List Char) (state : State) (t : Token) : Except SyntaxError State :=
  match state.stage with
  | .between => state.start t
  | .shown word =>
    if t.kind = .identifier then
      let text := String.ofList ((word.span.through t.span).slice source)
      .ok (state.addStatement source word t (.shell (.ofShow t.text text)) (.behind t))
    else
      state.continueExpression source word word (.operand (.identifier word.span word.text)) [] t
  | .inside first last mode frames => state.continueExpression source first last mode frames t
  | .behind last => state.separate last t

end State

/-- The statements that the tokens of a source make. -/
def ofTokens (source : List Char) (tokens : List Token) : Except SyntaxError (List Statement) :=
  (tokens.foldlM (State.step source) State.initial).map (·.statements.reverse)

/-- The statements of a source text. -/
def ofSource (source : String) : Except SyntaxError (List Statement) :=
  match tokens source with
  | .error e => .error e
  | .ok tokens => ofTokens source.toList tokens

end Script

/-- The one statement of a source text. -/
def Statement.ofSource (source : String) : Except SyntaxError Statement :=
  match Script.ofSource source with
  | .error e => .error e
  | .ok [] => .error ⟨1, 1, .noStatement⟩
  | .ok [statement] => .ok statement
  | .ok (_ :: second :: _) => .error (.under second.span (.secondStatement second.text))

end MongoShell
