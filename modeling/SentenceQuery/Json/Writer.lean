import SentenceQuery.Number.Text

/-!
# Writing JSON

JSON text is put together from pieces that are JSON themselves: texts, numbers, and arrays and objects of pieces. It has no
blanks. In a text only the double quote, the backslash and the control characters below U+0020 are escaped.
-/

namespace SentenceQuery.Json

/-- A character inside a JSON text. -/
def escapeChar (c : Char) : List Char :=
  if c = '"' then ['\\', '"']
  else if c = '\\' then ['\\', '\\']
  else if c.toNat < 0x20 then
    match c.toNat with
    | 0x8 => ['\\', 'b']
    | 0x9 => ['\\', 't']
    | 0xA => ['\\', 'n']
    | 0xC => ['\\', 'f']
    | 0xD => ['\\', 'r']
    | n => ['\\', 'u', '0', '0', Nat.digitChar (n / 16), Nat.digitChar (n % 16)]
  else [c]

/-- A text. -/
def ofString (s : String) : List Char := '"' :: (s.toList.flatMap escapeChar ++ ['"'])

/-- A number; one that is not finite is written as null. -/
def ofNumber (x : Binary64) : List Char := x.compactText?.getD ['n', 'u', 'l', 'l']

/-- A natural number. -/
def ofNat (n : Nat) : List Char := Nat.toDigits 10 n

/-- Pieces with commas between them. -/
def commaSeparated : List (List Char) → List Char
  | [] => []
  | [piece] => piece
  | piece :: pieces => piece ++ ',' :: commaSeparated pieces

/-- An array. -/
def ofItems (items : List (List Char)) : List Char := '[' :: (commaSeparated items ++ [']'])

/-- A member of an object. -/
def member (key : String) (value : List Char) : List Char := ofString key ++ ':' :: value

/-- An object. -/
def ofMembers (members : List (String × List Char)) : List Char :=
  '{' :: (commaSeparated (members.map fun m => member m.1 m.2) ++ ['}'])

/-- An array of texts. -/
def ofStrings (names : List String) : List Char := ofItems (names.map ofString)

end SentenceQuery.Json
