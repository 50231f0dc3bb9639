import Observing.Decimal
import Observing.Json

/-!
# Writing JSON

* `Json.quoted`  a text in quotes;
* `Json.render`  a document on one line;
* `Json.pretty`  a document with a line for each item and each field.
-/

namespace Observing
namespace Json

/-- A character as it stands in a quoted text. -/
def escaped (c : Char) : List Char :=
  if c = '"' then ['\\', '"']
  else if c = '\\' then ['\\', '\\']
  else if c = '\n' then ['\\', 'n']
  else if c = '\r' then ['\\', 'r']
  else if c = '\t' then ['\\', 't']
  else if c.toNat = 0x08 then ['\\', 'b']
  else if c.toNat = 0x0c then ['\\', 'f']
  else if c.toNat < 0x20 then
    ['\\', 'u', '0', '0', Nat.digitChar (c.toNat / 16), Nat.digitChar (c.toNat % 16)]
  else [c]

def quoted (s : String) : String :=
  String.ofList ('"' :: s.toList.flatMap escaped ++ ['"'])

/-- The digits of a number that is not an integer, with six places. -/
def decimalText (x : Rat) : String :=
  if x < 0 then "-" ++ Decimal.writeNat 6 (Rounding.places 6 (-x))
  else Decimal.writeNat 6 (Rounding.places 6 x)

mutual

def render : Json → String
  | .null | .unreadable => "null"
  | .bool true => "true"
  | .bool false => "false"
  | .integer n => toString n
  | .decimal x => decimalText x
  | .text s => quoted s
  | .list items => "[" ++ String.intercalate "," (renderItems items) ++ "]"
  | .object fields => "\x7b" ++ String.intercalate "," (renderFields fields) ++ "\x7d"

def renderItems : List Json → List String
  | [] => []
  | j :: js => render j :: renderItems js

def renderFields : List (String × Json) → List String
  | [] => []
  | (name, j) :: fs => (quoted name ++ ":" ++ render j) :: renderFields fs

end

/-- Parts on lines of their own between an opening and a closing mark. -/
def block (indent opening closing : String) : List String → String
  | [] => opening ++ closing
  | parts =>
    opening ++ "\n" ++ String.intercalate ",\n" (parts.map fun part => indent ++ "  " ++ part)
      ++ "\n" ++ indent ++ closing

mutual

/-- A document with a line for each item and each field, behind lines of the given indent. -/
def pretty (indent : String) : Json → String
  | .list items => block indent "[" "]" (prettyItems (indent ++ "  ") items)
  | .object fields => block indent "\x7b" "\x7d" (prettyFields (indent ++ "  ") fields)
  | .null => render .null
  | .unreadable => render .unreadable
  | .bool b => render (.bool b)
  | .integer n => render (.integer n)
  | .decimal x => render (.decimal x)
  | .text s => quoted s

def prettyItems (indent : String) : List Json → List String
  | [] => []
  | j :: js => pretty indent j :: prettyItems indent js

def prettyFields (indent : String) : List (String × Json) → List String
  | [] => []
  | (name, j) :: fs => (quoted name ++ ": " ++ pretty indent j) :: prettyFields indent fs

end

end Json
end Observing
