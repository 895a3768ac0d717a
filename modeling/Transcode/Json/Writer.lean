import Transcode.Json.Basic
import Transcode.Number.Integer
import Transcode.Number.Shortest
import Transcode.Text.Hex

/-!
# Writing JSON

Only the quote, the backslash and the characters below U+0020 are escaped. A value is written either
without any blanks or with a line for every item and two blanks for every level.
-/

namespace Transcode.Json

open Text (hexChar)

def escape (c : Char) : List Char :=
  if c = '"' then ['\\', '"']
  else if c = '\\' then ['\\', '\\']
  else if c = '\x08' then ['\\', 'b']
  else if c = '\t' then ['\\', 't']
  else if c = '\n' then ['\\', 'n']
  else if c = '\x0c' then ['\\', 'f']
  else if c = '\r' then ['\\', 'r']
  else if c.toNat < 0x20 then
    ['\\', 'u', '0', '0', hexChar (c.toNat / 16), hexChar (c.toNat % 16)]
  else [c]

def quoted (s : String) : List Char :=
  '"' :: (s.toList.flatMap escape ++ ['"'])

/-- A number that is no integer, with a point. -/
def realChars (x : Number.Binary64) : List Char :=
  let cs := x.chars
  if cs.contains '.' then cs else cs ++ ['.', '0']

mutual

def compact : Json → List Char
  | .null => "null".toList
  | .bool true => "true".toList
  | .bool false => "false".toList
  | .integer n => Number.integerChars n
  | .real x => realChars x
  | .text s => quoted s
  | .list [] => ['[', ']']
  | .list (v :: vs) => '[' :: (compact v ++ compactItems vs ++ [']'])
  | .object [] => ['{', '}']
  | .object ((k, v) :: ms) => '{' :: (quoted k ++ ':' :: compact v ++ compactMembers ms ++ ['}'])

/-- The further items of a list, each after a comma. -/
def compactItems : List Json → List Char
  | [] => []
  | v :: vs => ',' :: (compact v ++ compactItems vs)

/-- The further members of an object, each after a comma. -/
def compactMembers : List (String × Json) → List Char
  | [] => []
  | (k, v) :: ms => ',' :: (quoted k ++ ':' :: compact v ++ compactMembers ms)

end

def lineAt (level : Nat) : List Char :=
  '\n' :: List.replicate (2 * level) ' '

mutual

/-- A value laid out over lines, its own lines being at a level. -/
def pretty (level : Nat) : Json → List Char
  | .null => "null".toList
  | .bool true => "true".toList
  | .bool false => "false".toList
  | .integer n => Number.integerChars n
  | .real x => realChars x
  | .text s => quoted s
  | .list [] => ['[', ']']
  | .list (v :: vs) =>
    '[' :: (lineAt (level + 1) ++ pretty (level + 1) v ++ prettyItems (level + 1) vs ++
      lineAt level ++ [']'])
  | .object [] => ['{', '}']
  | .object ((k, v) :: ms) =>
    '{' :: (lineAt (level + 1) ++ quoted k ++ ':' :: ' ' :: pretty (level + 1) v ++
      prettyMembers (level + 1) ms ++ lineAt level ++ ['}'])

/-- The further items of a list, each on a line of its own. -/
def prettyItems (level : Nat) : List Json → List Char
  | [] => []
  | v :: vs => ',' :: (lineAt level ++ pretty level v ++ prettyItems level vs)

/-- The further members of an object, each on a line of its own. -/
def prettyMembers (level : Nat) : List (String × Json) → List Char
  | [] => []
  | (k, v) :: ms =>
    ',' :: (lineAt level ++ quoted k ++ ':' :: ' ' :: pretty level v ++ prettyMembers level ms)

end

def compactText (v : Json) : String :=
  String.ofList (compact v)

def prettyText (v : Json) : String :=
  String.ofList (pretty 0 v)

end Transcode.Json
