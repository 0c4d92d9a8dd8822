import MongoShell.Expr
import MongoShell.Token.Literal

/-! The grammar of expressions. A list of tokens derives a tree, and trees have no places: each node
has the span that stands for none. An operand is a value together with the accesses and calls
applied to it; a list and an object may have a comma behind the last of their items. -/

namespace MongoShell

namespace Grammar

open MongoShell.Expr (nowhere)

/-- A word that is a value: one of three constants, or a name. The word that starts a construction
is none. -/
inductive Word : String → Expr → Prop
  | yes : Word "true" (.boolean nowhere true)
  | no : Word "false" (.boolean nowhere false)
  | null : Word "null" (.null nowhere)
  | name {text : String} (plain : text ∉ ["true", "false", "null", "new"]) :
      Word text (.identifier nowhere text)

/-- What a sign may stand in front of. -/
def Unsigned (t : Token) : Prop := t.kind = .number ∨ (t.kind = .identifier ∧ t.text = "Infinity")

/-- A sign and a number. Of the signs the tree keeps a minus. -/
inductive Signed : List Token → Expr → Prop
  | plus {sign number : Token} (isSign : sign.kind = .plus) (unsigned : Unsigned number) :
      Signed [sign, number] (.number nowhere number.text)
  | minus {sign number : Token} (isSign : sign.kind = .minus) (unsigned : Unsigned number) :
      Signed [sign, number] (.number nowhere ("-" ++ number.text))

/-- A token that is the key of a member, and the name it gives. -/
inductive Key : Token → String → Prop
  | plain {t : Token} (kind : t.kind = .identifier ∨ t.kind = .number) : Key t t.text
  | quoted {t : Token} {name : String} (kind : t.kind = .string)
      (contents : StringLiteral.contents? t.text = some name) : Key t name

/-- The two words that open a construction. -/
def Constructs (word name : Token) : Prop :=
  word.kind = .identifier ∧ word.text = "new" ∧ name.kind = .identifier

mutual

inductive Expression : List Token → Expr → Prop
  | signed {tokens : List Token} {tree : Expr} (number : Signed tokens tree) :
      Expression tokens tree
  | operand {bare : Bool} {tokens : List Token} {tree : Expr} (value : Operand bare tokens tree) :
      Expression tokens tree

/-- An operand is bare if it is a construction without arguments. A parenthesis behind one opens its
arguments, so a bare operand is not called. -/
inductive Operand : Bool → List Token → Expr → Prop
  | word {t : Token} {tree : Expr} (kind : t.kind = .identifier) (value : Word t.text tree) :
      Operand false [t] tree
  | string {t : Token} {text : String} (kind : t.kind = .string)
      (contents : StringLiteral.contents? t.text = some text) :
      Operand false [t] (.string nowhere text)
  | number {t : Token} (kind : t.kind = .number) : Operand false [t] (.number nowhere t.text)
  | regex {t : Token} (kind : t.kind = .regex) :
      Operand false [t] (.regex nowhere (splitRegex t.text).1 (splitRegex t.text).2)
  | group {opening closing : Token} {tokens : List Token} {tree : Expr}
      (left : opening.kind = .leftParen) (inner : Expression tokens tree)
      (right : closing.kind = .rightParen) : Operand false (opening :: (tokens ++ [closing])) tree
  | object {opening closing : Token} {tokens : List Token} {properties : List Property}
      (left : opening.kind = .leftBrace) (inner : Members tokens properties)
      (right : closing.kind = .rightBrace) :
      Operand false (opening :: (tokens ++ [closing])) (.object nowhere properties)
  | array {opening closing : Token} {tokens : List Token} {elements : List Expr}
      (left : opening.kind = .leftBracket) (inner : Items tokens elements)
      (right : closing.kind = .rightBracket) :
      Operand false (opening :: (tokens ++ [closing])) (.array nowhere elements)
  | construct {word name : Token} (words : Constructs word name) :
      Operand true [word, name] (.construct nowhere (.identifier nowhere name.text))
  | constructCall {word name opening closing : Token} {tokens : List Token} {values : List Expr}
      (words : Constructs word name) (left : opening.kind = .leftParen)
      (inner : Items tokens values) (right : closing.kind = .rightParen) :
      Operand false (word :: name :: opening :: (tokens ++ [closing]))
        (.construct nowhere (.call nowhere (.identifier nowhere name.text) values))
  | member {bare : Bool} {tokens : List Token} {tree : Expr} {dot name : Token}
      (target : Operand bare tokens tree) (isDot : dot.kind = .dot)
      (isName : name.kind = .identifier) :
      Operand false (tokens ++ [dot, name]) (.member nowhere tree name.text)
  | index {bare : Bool} {tokens more : List Token} {tree position : Expr} {opening closing : Token}
      (target : Operand bare tokens tree) (left : opening.kind = .leftBracket)
      (inner : Expression more position) (right : closing.kind = .rightBracket) :
      Operand false (tokens ++ opening :: (more ++ [closing])) (.index nowhere tree position)
  | call {tokens more : List Token} {tree : Expr} {values : List Expr} {opening closing : Token}
      (target : Operand false tokens tree) (left : opening.kind = .leftParen)
      (inner : Items more values) (right : closing.kind = .rightParen) :
      Operand false (tokens ++ opening :: (more ++ [closing])) (.call nowhere tree values)

/-- The elements of an array or the arguments of a call. -/
inductive Items : List Token → List Expr → Prop
  | none : Items [] []
  | last {tokens : List Token} {tree : Expr} (item : Expression tokens tree) : Items tokens [tree]
  | more {tokens rest : List Token} {tree : Expr} {trees : List Expr} {comma : Token}
      (item : Expression tokens tree) (isComma : comma.kind = .comma) (others : Items rest trees) :
      Items (tokens ++ comma :: rest) (tree :: trees)

/-- The members of an object. -/
inductive Members : List Token → List Property → Prop
  | none : Members [] []
  | last {tokens : List Token} {tree : Expr} {key colon : Token} {name : String}
      (isKey : Key key name) (isColon : colon.kind = .colon) (value : Expression tokens tree) :
      Members (key :: colon :: tokens) [.mk name nowhere tree]
  | more {tokens rest : List Token} {tree : Expr} {properties : List Property}
      {key colon comma : Token} {name : String} (isKey : Key key name)
      (isColon : colon.kind = .colon) (value : Expression tokens tree)
      (isComma : comma.kind = .comma) (others : Members rest properties) :
      Members (key :: colon :: (tokens ++ comma :: rest)) (.mk name nowhere tree :: properties)

end

/-- Tokens in front of another that are an expression as a whole: an access or a call behind a value
is part of the value, but a signed number ends by itself. -/
def Whole (tokens : List Token) (next : Token) (tree : Expr) : Prop :=
  Signed tokens tree ∨
    (∃ bare, Operand bare tokens tree) ∧ next.kind ∉ [.dot, .leftBracket, .leftParen]

theorem Whole.expression {tokens : List Token} {next : Token} {tree : Expr}
    (whole : Whole tokens next tree) : Expression tokens tree := by
  rcases whole with number | ⟨⟨bare, value⟩, -⟩
  · exact .signed number
  · exact .operand value

theorem Operand.ne_nil {bare : Bool} {tokens : List Token} {tree : Expr}
    (value : Operand bare tokens tree) : tokens ≠ [] := by
  cases value <;> simp

theorem Expression.ne_nil {tokens : List Token} {tree : Expr}
    (expression : Expression tokens tree) : tokens ≠ [] := by
  cases expression with
  | signed number => cases number <;> simp
  | operand value => exact value.ne_nil

/-! Items with a comma behind each, as they stand in front of the next one -/

inductive LeadingItems : List Token → List Expr → Prop
  | none : LeadingItems [] []
  | snoc {tokens more : List Token} {trees : List Expr} {tree : Expr} {comma : Token}
      (earlier : LeadingItems tokens trees) (item : Expression more tree)
      (isComma : comma.kind = .comma) :
      LeadingItems (tokens ++ (more ++ [comma])) (trees ++ [tree])

inductive LeadingMembers : List Token → List Property → Prop
  | none : LeadingMembers [] []
  | snoc {tokens more : List Token} {properties : List Property} {tree : Expr}
      {key colon comma : Token} {name : String} (earlier : LeadingMembers tokens properties)
      (isKey : Key key name) (isColon : colon.kind = .colon) (value : Expression more tree)
      (isComma : comma.kind = .comma) :
      LeadingMembers (tokens ++ key :: colon :: (more ++ [comma]))
        (properties ++ [.mk name nowhere tree])

theorem LeadingItems.append {tokens more : List Token} {trees others : List Expr}
    (leading : LeadingItems tokens trees) (behind : Items more others) :
    Items (tokens ++ more) (trees ++ others) := by
  induction leading generalizing more others with
  | none => exact behind
  | snoc earlier item isComma ih =>
    simpa only [List.append_assoc, List.singleton_append] using ih (.more item isComma behind)

theorem LeadingMembers.append {tokens more : List Token} {properties others : List Property}
    (leading : LeadingMembers tokens properties) (behind : Members more others) :
    Members (tokens ++ more) (properties ++ others) := by
  induction leading generalizing more others with
  | none => exact behind
  | snoc earlier isKey isColon value isComma ih =>
    simpa only [List.append_assoc, List.cons_append, List.nil_append]
      using ih (.more isKey isColon value isComma behind)

end Grammar

end MongoShell
