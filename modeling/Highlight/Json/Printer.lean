import Highlight.Data
import Highlight.Decimal.Notation

/-! # Writing JSON

Values are written over several lines with two blanks of indentation a level; empty lists and
records stay on one line. Only quotes, backslashes and control characters are escaped.
-/

namespace Highlight.Json

/-- A hexadecimal digit. -/
def hexChar (n : Nat) : Char :=
  if n < 10 then Char.ofNat ('0'.toNat + n) else Char.ofNat ('a'.toNat + (n - 10))

/-- A character as it is written between quotes. -/
def escape (c : Char) : List Char :=
  if c = '"' then ['\\', '"']
  else if c = '\\' then ['\\', '\\']
  else if c = '\x08' then ['\\', 'b']
  else if c = '\x0c' then ['\\', 'f']
  else if c = '\n' then ['\\', 'n']
  else if c = '\r' then ['\\', 'r']
  else if c = '\t' then ['\\', 't']
  else if c < ' ' then ['\\', 'u', '0', '0', hexChar (c.toNat / 16), hexChar (c.toNat % 16)]
  else [c]

/-- A text between quotes. -/
def quote (s : List Char) : List Char :=
  '"' :: s.flatMap escape ++ ['"']

/-- Numbers have a point, or an exponent if they have more than sixteen places before the point or
    more than four zeros behind it; ties go to the even digit. What is no number is null. -/
def numbers : Decimal.Notation where
  tie := .toEven
  plain := some (16, 4)
  nan := "null"
  infinities := ("null", "null")

/-- A new line with the indentation of a level. -/
def newLine (level : Nat) : List Char :=
  '\n' :: List.replicate (2 * level) ' '

mutual

/-- A value that starts on a line of the given level. -/
def render (level : Nat) : Data → List Char
  | .null => "null".toList
  | .flag true => "true".toList
  | .flag false => "false".toList
  | .integer n => (toString n).toList
  | .real x => numbers.write x
  | .text s => quote s.toList
  | .list [] => ['[', ']']
  | .list (item :: items) =>
    '[' :: newLine (level + 1) ++ render (level + 1) item ++ renderItems (level + 1) items ++
      newLine level ++ [']']
  | .record [] => ['\x7b', '\x7d']
  | .record ((name, value) :: fields) =>
    '\x7b' :: newLine (level + 1) ++ quote name.toList ++ [':', ' '] ++
      render (level + 1) value ++ renderFields (level + 1) fields ++ newLine level ++ ['\x7d']
  | .unreadable => "null".toList

/-- The further items of a list. -/
def renderItems (level : Nat) : List Data → List Char
  | [] => []
  | item :: items => ',' :: newLine level ++ render level item ++ renderItems level items

/-- The further fields of a record. -/
def renderFields (level : Nat) : List (String × Data) → List Char
  | [] => []
  | (name, value) :: fields =>
    ',' :: newLine level ++ quote name.toList ++ [':', ' '] ++ render level value ++
      renderFields level fields

end

/-- The text of a value. -/
def print (value : Data) : List Char :=
  render 0 value

end Highlight.Json
