import SecretStore.Json.Value
import SecretStore.Number.Hex

/-!
# Writing JSON

`Value.compact` writes a document without blanks, and `Value.pretty` one item to a line with two
blanks for every level. In both, strings escape the double quote, the backslash and the control
characters below the space, and nothing else.
-/

namespace SecretStore.Json

open Number (hexDigit)

/-- One character of a string. -/
def escapeChar (c : Char) : List Char :=
  if c = '"' then ['\\', '"']
  else if c = '\\' then ['\\', '\\']
  else if c = '\x08' then ['\\', 'b']
  else if c = '\x0c' then ['\\', 'f']
  else if c = '\n' then ['\\', 'n']
  else if c = '\r' then ['\\', 'r']
  else if c = '\t' then ['\\', 't']
  else if c.toNat < 0x20 then
    ['\\', 'u', '0', '0', hexDigit (c.toNat / 16), hexDigit (c.toNat % 16)]
  else [c]

/-- A string with its quotes. -/
def quoted (s : String) : List Char := '"' :: s.toList.flatMap escapeChar ++ ['"']

namespace Value

mutual

/-- The characters of the compact text. -/
def compactChars : Value → List Char
  | null => ['n', 'u', 'l', 'l']
  | bool true => ['t', 'r', 'u', 'e']
  | bool false => ['f', 'a', 'l', 's', 'e']
  | number n => n.render.toList
  | string s => quoted s
  | array items => '[' :: compactItems items ++ [']']
  | object members => '\x7b' :: compactMembers members ++ ['\x7d']

/-- The items of an array with commas between them. -/
def compactItems : List Value → List Char
  | [] => []
  | [v] => compactChars v
  | v :: rest => compactChars v ++ ',' :: compactItems rest

/-- The members of an object with commas between them. -/
def compactMembers : List (String × Value) → List Char
  | [] => []
  | [(name, v)] => quoted name ++ ':' :: compactChars v
  | (name, v) :: rest => quoted name ++ ':' :: compactChars v ++ ',' :: compactMembers rest

end

/-- The document without blanks. -/
def compact (v : Value) : String := String.ofList v.compactChars

/-- A line break and the indentation of a level. -/
def newline (level : Nat) : List Char := '\n' :: List.replicate (2 * level) ' '

mutual

/-- The characters of the indented text at a level. -/
def prettyChars (level : Nat) : Value → List Char
  | array [] => ['[', ']']
  | array (v :: rest) => '[' :: prettyItems (level + 1) (v :: rest) ++ newline level ++ [']']
  | object [] => ['\x7b', '\x7d']
  | object (m :: rest) =>
    '\x7b' :: prettyMembers (level + 1) (m :: rest) ++ newline level ++ ['\x7d']
  | null => ['n', 'u', 'l', 'l']
  | bool true => ['t', 'r', 'u', 'e']
  | bool false => ['f', 'a', 'l', 's', 'e']
  | number n => n.render.toList
  | string s => quoted s

/-- The items of an array, each on its line. -/
def prettyItems (level : Nat) : List Value → List Char
  | [] => []
  | [v] => newline level ++ prettyChars level v
  | v :: rest => newline level ++ prettyChars level v ++ ',' :: prettyItems level rest

/-- The members of an object, each on its line. -/
def prettyMembers (level : Nat) : List (String × Value) → List Char
  | [] => []
  | [(name, v)] => newline level ++ quoted name ++ [':', ' '] ++ prettyChars level v
  | (name, v) :: rest =>
    newline level ++ quoted name ++ [':', ' '] ++ prettyChars level v ++
      ',' :: prettyMembers level rest

end

/-- The document with one item to a line. -/
def pretty (v : Value) : String := String.ofList (v.prettyChars 0)

end Value

end SecretStore.Json
