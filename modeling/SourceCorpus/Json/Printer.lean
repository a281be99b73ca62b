import SourceCorpus.Json.Value

/-!
JSON text, on one line or indented by two spaces for each level. Characters outside ASCII are
written as themselves.
-/

namespace SourceCorpus.Json

def hexDigit (n : Nat) : Char := "0123456789abcdef".toList.getD n '0'

/-- What stands for the character inside a string literal. -/
def escape (c : Char) : List Char :=
  if c = '"' then ['\\', '"']
  else if c = '\\' then ['\\', '\\']
  else if c = '\n' then ['\\', 'n']
  else if c = '\r' then ['\\', 'r']
  else if c = '\t' then ['\\', 't']
  else if c = '\x08' then ['\\', 'b']
  else if c = '\x0c' then ['\\', 'f']
  else if c < ' ' then ['\\', 'u', '0', '0', hexDigit (c.toNat / 16), hexDigit (c.toNat % 16)]
  else [c]

def quoted (text : String) : List Char := '"' :: text.toList.flatMap escape ++ ['"']

def scalarChars : Json → List Char
  | .bool true => "true".toList
  | .bool false => "false".toList
  | .number literal => literal.toList
  | .string text => quoted text
  | _ => "null".toList

mutual

def compactChars : Json → List Char
  | .array items => '[' :: compactItems items
  | .object fields => '{' :: compactFields fields
  | j => scalarChars j

/-- The items and the closing bracket. -/
def compactItems : List Json → List Char
  | [] => [']']
  | [item] => compactChars item ++ [']']
  | item :: items => compactChars item ++ ',' :: compactItems items

/-- The fields and the closing brace. -/
def compactFields : List (String × Json) → List Char
  | [] => ['}']
  | [(name, value)] => quoted name ++ ':' :: compactChars value ++ ['}']
  | (name, value) :: fields =>
    quoted name ++ ':' :: compactChars value ++ ',' :: compactFields fields

end

/-- The value on one line without blanks between its tokens. -/
def compact (j : Json) : String := String.ofList (compactChars j)

/-- A new line at a level of indentation. -/
def newLine (level : Nat) : List Char := '\n' :: List.replicate (2 * level) ' '

mutual

def prettyChars (level : Nat) : Json → List Char
  | .array [] => ['[', ']']
  | .array items => '[' :: prettyItems (level + 1) items ++ newLine level ++ [']']
  | .object [] => ['{', '}']
  | .object fields => '{' :: prettyFields (level + 1) fields ++ newLine level ++ ['}']
  | j => scalarChars j

/-- The items, each on a line of its own. -/
def prettyItems (level : Nat) : List Json → List Char
  | [] => []
  | [item] => newLine level ++ prettyChars level item
  | item :: items => newLine level ++ prettyChars level item ++ ',' :: prettyItems level items

/-- The fields, each on a line of its own. -/
def prettyFields (level : Nat) : List (String × Json) → List Char
  | [] => []
  | [(name, value)] => newLine level ++ quoted name ++ ':' :: ' ' :: prettyChars level value
  | (name, value) :: fields =>
    newLine level ++ quoted name ++ ':' :: ' ' :: prettyChars level value ++
      ',' :: prettyFields level fields

end

/-- The value with every item and field on a line of its own. -/
def pretty (j : Json) : String := String.ofList (prettyChars 0 j)

end SourceCorpus.Json
