import MessageGraph.Binary64.Shortest
import MessageGraph.Json.Value

/-!
# Writing JSON

`Json.compact` writes a value on one line without blanks. `Json.pretty` writes one item or field per
line, two blanks deeper than what holds it; empty arrays and objects are closed up. A real number
that is not finite has no decimal and is written `null`.
-/
namespace MessageGraph.Json

/-- A hexadecimal digit, in lower case. -/
def hexDigit (n : Nat) : Char := Nat.digitChar n

/-- Quotes, backslashes and control characters are escaped; nothing else is. -/
def escape (c : Char) : List Char :=
  if c = '"' then ['\\', '"']
  else if c = '\\' then ['\\', '\\']
  else if c.toNat = 0x08 then ['\\', 'b']
  else if c.toNat = 0x0C then ['\\', 'f']
  else if c = '\n' then ['\\', 'n']
  else if c.toNat = 0x0D then ['\\', 'r']
  else if c = '\t' then ['\\', 't']
  else if c.toNat < 0x20 then
    ['\\', 'u', '0', '0', hexDigit (c.toNat / 16), hexDigit (c.toNat % 16)]
  else [c]

def quoted (text : String) : List Char :=
  '"' :: text.toList.flatMap escape ++ ['"']

def integerText (n : Int) : List Char :=
  if n < 0 then '-' :: Nat.toDigits 10 n.natAbs else Nat.toDigits 10 n.natAbs

def nullText : List Char := ['n', 'u', 'l', 'l']

/-- The text of a value without parts. -/
def scalarText : Json → List Char
  | null => nullText
  | bool true => ['t', 'r', 'u', 'e']
  | bool false => ['f', 'a', 'l', 's', 'e']
  | integer n => integerText n
  | real x => x.text?.getD nullText
  | string s => quoted s
  | array _ => ['[', ']']
  | object _ => ['\x7b', '\x7d']

/-! ## On one line -/

mutual

def compactChars : Json → List Char
  | array items => '[' :: compactItems items ++ [']']
  | object fields => '\x7b' :: compactFields fields ++ ['\x7d']
  | value => scalarText value

def compactItems : List Json → List Char
  | [] => []
  | [item] => compactChars item
  | item :: items => compactChars item ++ ',' :: compactItems items

def compactFields : List (String × Json) → List Char
  | [] => []
  | [(key, value)] => quoted key ++ ':' :: compactChars value
  | (key, value) :: fields =>
    quoted key ++ ':' :: compactChars value ++ ',' :: compactFields fields

end

def compact (value : Json) : String := String.ofList (compactChars value)

/-! ## Over several lines -/

/-- The start of a line at some depth. -/
def newline (depth : Nat) : List Char := '\n' :: List.replicate (2 * depth) ' '

mutual

/-- A value whose first line stands at `depth`. -/
def prettyChars (depth : Nat) : Json → List Char
  | array [] => ['[', ']']
  | object [] => ['\x7b', '\x7d']
  | array (item :: items) => '[' :: prettyItems (depth + 1) (item :: items) ++ newline depth ++ [']']
  | object (field :: fields) =>
    '\x7b' :: prettyFields (depth + 1) (field :: fields) ++ newline depth ++ ['\x7d']
  | value => scalarText value

def prettyItems (depth : Nat) : List Json → List Char
  | [] => []
  | [item] => newline depth ++ prettyChars depth item
  | item :: items => newline depth ++ prettyChars depth item ++ ',' :: prettyItems depth items

def prettyFields (depth : Nat) : List (String × Json) → List Char
  | [] => []
  | [(key, value)] => newline depth ++ quoted key ++ [':', ' '] ++ prettyChars depth value
  | (key, value) :: fields =>
    newline depth ++ quoted key ++ [':', ' '] ++ prettyChars depth value ++
      ',' :: prettyFields depth fields

end

def pretty (value : Json) : String := String.ofList (prettyChars 0 value)

end MessageGraph.Json
