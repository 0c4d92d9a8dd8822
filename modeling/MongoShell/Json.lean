import MongoShell.Bytes.Hex

/-!
JSON documents and their two written forms, on one line and indented. Members keep their order, and
a name may occur more than once; numbers are kept as they are written.
-/

namespace MongoShell

inductive Json where
  | null
  | boolean (b : Bool)
  | number (text : String)
  | string (text : String)
  | array (items : List Json)
  | object (members : List (String × Json))

namespace Json

def ofInt (n : Int) : Json := number (toString n)

/-- A character inside a JSON string. Quotes, backslashes and control characters are escaped, by one
letter where there is one. -/
def escapeChar (c : Char) : List Char :=
  if c = '"' then ['\\', '"']
  else if c = '\\' then ['\\', '\\']
  else if c = '\x08' then ['\\', 'b']
  else if c = '\x0c' then ['\\', 'f']
  else if c = '\n' then ['\\', 'n']
  else if c = '\r' then ['\\', 'r']
  else if c = '\t' then ['\\', 't']
  else if c.toNat < 0x20 then
    ['\\', 'u', '0', '0', hexDigit (c.toNat / 16), hexDigit (c.toNat % 16)]
  else [c]

/-- A string in quotes. -/
def quote (text : String) : List Char := '"' :: text.toList.flatMap escapeChar ++ ['"']

mutual

/-- The text on one line, without blanks. -/
def compact : Json → List Char
  | null => "null".toList
  | boolean true => "true".toList
  | boolean false => "false".toList
  | number text => text.toList
  | string text => quote text
  | array [] => ['[', ']']
  | array (first :: rest) => '[' :: (compact first ++ compactItems rest)
  | object [] => ['{', '}']
  | object ((name, first) :: rest) =>
    '{' :: (quote name ++ ':' :: (compact first ++ compactMembers rest))

/-- The items of an array behind its first one, and its end. -/
def compactItems : List Json → List Char
  | [] => [']']
  | item :: rest => ',' :: (compact item ++ compactItems rest)

/-- The members of an object behind its first one, and its end. -/
def compactMembers : List (String × Json) → List Char
  | [] => ['}']
  | (name, value) :: rest => ',' :: (quote name ++ ':' :: (compact value ++ compactMembers rest))

end

/-- A new line at a level of nesting, two blanks for each. -/
def newLine (level : Nat) : List Char := '\n' :: List.replicate (2 * level) ' '

mutual

/-- The text with each item and each member on a line of its own. -/
def indented (level : Nat) : Json → List Char
  | null => "null".toList
  | boolean true => "true".toList
  | boolean false => "false".toList
  | number text => text.toList
  | string text => quote text
  | array [] => ['[', ']']
  | array (first :: rest) =>
    '[' :: (newLine (level + 1) ++ indented (level + 1) first ++ indentedItems level rest)
  | object [] => ['{', '}']
  | object ((name, first) :: rest) =>
    '{' :: (newLine (level + 1) ++ quote name ++ ':' :: ' ' :: indented (level + 1) first
      ++ indentedMembers level rest)

def indentedItems (level : Nat) : List Json → List Char
  | [] => newLine level ++ [']']
  | item :: rest =>
    ',' :: (newLine (level + 1) ++ indented (level + 1) item ++ indentedItems level rest)

def indentedMembers (level : Nat) : List (String × Json) → List Char
  | [] => newLine level ++ ['}']
  | (name, value) :: rest =>
    ',' :: (newLine (level + 1) ++ quote name ++ ':' :: ' ' :: indented (level + 1) value
      ++ indentedMembers level rest)

end

end Json

end MongoShell
