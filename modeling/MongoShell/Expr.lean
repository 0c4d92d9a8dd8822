import MongoShell.Source

/-!
Expressions of the shell language. Every node carries the span of source it was read from; a node
means the same wherever it stands, so two trees that differ in spans only are alike (`eraseSpans`).
-/

namespace MongoShell

mutual

inductive Expr where
  | identifier (span : Span) (name : String)
  /-- A string, its escapes resolved. -/
  | string (span : Span) (value : String)
  /-- A number as written, or `Infinity` behind a sign; only a minus sign is kept. -/
  | number (span : Span) (lexeme : String)
  | boolean (span : Span) (value : Bool)
  | null (span : Span)
  /-- A regular expression, its flags as written. -/
  | regex (span : Span) (pattern flags : String)
  | object (span : Span) (properties : List Property)
  | array (span : Span) (elements : List Expr)
  | member (span : Span) (object : Expr) (property : String)
  | index (span : Span) (object position : Expr)
  | call (span : Span) (callee : Expr) (arguments : List Expr)
  /-- A construction, `new X` or `new X(...)`; the target is the name or the call. -/
  | construct (span : Span) (target : Expr)

inductive Property where
  | mk (key : String) (span : Span) (value : Expr)

end

namespace Property

def key : Property → String
  | mk key _ _ => key

def span : Property → Span
  | mk _ span _ => span

def value : Property → Expr
  | mk _ _ value => value

end Property

namespace Expr

def span : Expr → Span
  | identifier span _ | string span _ | number span _ | boolean span _ | null span
  | regex span _ _ | object span _ | array span _ | member span _ _ | index span _ _
  | call span _ _ | construct span _ => span

/-- The text of a string literal. -/
def string? : Expr → Option String
  | string _ value => some value
  | _ => none

/-- The span that stands for no place in particular. -/
def nowhere : Span := ⟨0, 0, 0, 0⟩

mutual

/-- The tree without its places. -/
def eraseSpans : Expr → Expr
  | identifier _ name => identifier nowhere name
  | string _ value => string nowhere value
  | number _ lexeme => number nowhere lexeme
  | boolean _ value => boolean nowhere value
  | null _ => null nowhere
  | regex _ pattern flags => regex nowhere pattern flags
  | object _ properties => object nowhere (eraseProperties properties)
  | array _ elements => array nowhere (eraseAll elements)
  | member _ target property => member nowhere target.eraseSpans property
  | index _ target position => index nowhere target.eraseSpans position.eraseSpans
  | call _ callee arguments => call nowhere callee.eraseSpans (eraseAll arguments)
  | construct _ target => construct nowhere target.eraseSpans

def eraseAll : List Expr → List Expr
  | [] => []
  | e :: rest => e.eraseSpans :: eraseAll rest

def eraseProperties : List Property → List Property
  | [] => []
  | .mk key _ value :: rest => .mk key nowhere value.eraseSpans :: eraseProperties rest

end

end Expr

end MongoShell
