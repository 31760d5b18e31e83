import Highlight.Data
import Highlight.Decimal.Notation
import Highlight.Json.Printer

/-! # Writing TOML

A record is written as its plain fields, one a line, and then its tables under headers of their
own, with an empty line before each header. Lists of two and more items stand over several lines.
A text gets the plainest pair of quotes that needs no escape; where none does, it is escaped.
-/

namespace Highlight.Toml

/-- Whether a character can only be written as an escape. -/
def isControl (c : Char) : Bool :=
  (c < ' ' && c != '\t' && c != '\n') || c == '\x7f'

/-- The longest run of one character in a text; `run` counts the one in front of it. -/
def longestRun (mark : Char) (run : Nat) : List Char → Nat
  | [] => run
  | c :: rest =>
    if c = mark then longestRun mark (run + 1) rest else max run (longestRun mark 0 rest)

/-- A hexadecimal digit in upper case. -/
def hexChar (n : Nat) : Char :=
  (Json.hexChar n).toUpper

/-- A character as it is written where escapes are allowed; breaks only need one on a single
    line. -/
def escape (multi : Bool) (c : Char) : List Char :=
  if c = '\x08' then ['\\', 'b']
  else if c = '\t' then ['\\', 't']
  else if c = '\n' then if multi then ['\n'] else ['\\', 'n']
  else if c = '\x0c' then ['\\', 'f']
  else if c = '\r' then ['\\', 'r']
  else if c = '\\' then ['\\', '\\']
  else if isControl c then ['\\', 'u', '0', '0', hexChar (c.toNat / 16), hexChar (c.toNat % 16)]
  else [c]

/-- A text with escapes. Over several lines every third quote of a run is escaped, on a single line
    every one; `run` counts the quotes since the last escape. -/
def escapeText (multi : Bool) (run : Nat) : List Char → List Char
  | [] => []
  | c :: rest =>
    if c = '"' then
      if multi ∧ run < 2 then '"' :: escapeText multi (run + 1) rest
      else '\\' :: '"' :: escapeText multi 0 rest
    else escape multi c ++ escapeText multi 0 rest

/-- The break behind the opening quotes of a text over several lines. -/
def openingBreak (s : List Char) : List Char :=
  if s.contains '\n' then ['\n'] else []

/-- Three of a mark. -/
def triple (mark : Char) : List Char :=
  [mark, mark, mark]

/-- A text between quotes or apostrophes. -/
def quote (s : List Char) : List Char :=
  let control := s.any isControl
  let backslash := s.contains '\\'
  let break_ := s.contains '\n'
  let quotes := longestRun '"' 0 s
  let apostrophes := longestRun '\'' 0 s
  if ¬control ∧ ¬backslash ∧ ¬break_ ∧ quotes = 0 then '"' :: escapeText false 0 s ++ ['"']
  else if ¬control ∧ ¬break_ ∧ apostrophes = 0 then '\'' :: s ++ ['\'']
  else if ¬control ∧ ¬backslash ∧ quotes ≤ 2 then
    triple '"' ++ openingBreak s ++ escapeText true 0 s ++ triple '"'
  else if ¬control ∧ apostrophes ≤ 2 then triple '\'' ++ openingBreak s ++ s ++ triple '\''
  else if break_ then triple '"' ++ openingBreak s ++ escapeText true 0 s ++ triple '"'
  else '"' :: escapeText false 0 s ++ ['"']

/-- Numbers are written out in full and always with a point; ties go up. -/
def numbers : Decimal.Notation where
  tie := .up
  nan := "nan"
  infinities := ("inf", "-inf")

mutual

/-- A value on the right of an equals sign. -/
def renderValue : Data → List Char
  | .flag true => "true".toList
  | .flag false => "false".toList
  | .integer n => (toString n).toList
  | .real x => numbers.write x
  | .text s => quote s.toList
  | .list [] => ['[', ']']
  | .list [item] => '[' :: renderValue item ++ [']']
  | .list items => '[' :: renderItems items ++ ['\n', ']']
  | _ => []

/-- The items of a list over several lines, each with a comma behind it. -/
def renderItems : List Data → List Char
  | [] => []
  | item :: items => "\n    ".toList ++ renderValue item ++ ',' :: renderItems items

end

/-- Whether a value is a record. -/
def isRecord : Data → Bool
  | .record _ => true
  | _ => false

/-- Whether a value stands on a line of its own, not under a header. What is absent has no line. -/
def isInline : Data → Bool
  | .null => false
  | .unreadable => false
  | .record _ => false
  | .list [] => true
  | .list items => !items.all isRecord
  | _ => true

/-- The lines of the plain fields of a record. -/
def renderFields (fields : List (String × Data)) : List Char :=
  (fields.filter fun (_, value) => isInline value).flatMap fun (name, value) =>
    name.toList ++ " = ".toList ++ renderValue value ++ ['\n']

/-- The keys of a header. -/
def renderPath (path : List String) : List Char :=
  (path.map String.toList).intersperse ['.'] |>.flatten

mutual

/-- The headed parts below the fields of a record. -/
def sections (path : List String) : List (String × Data) → List (List Char)
  | [] => []
  | (name, value) :: rest => sectionsOf (path ++ [name]) value ++ sections path rest

/-- The headed parts of one field. A record that only holds further tables needs no header. -/
def sectionsOf (path : List String) : Data → List (List Char)
  | .record fields =>
    (if fields.isEmpty ∨ fields.any fun (_, value) => isInline value then
      ['[' :: renderPath path ++ [']', '\n'] ++ renderFields fields]
    else []) ++ sections path fields
  | .list items => if items.all isRecord then rows path items else []
  | _ => []

/-- The headed parts of a list of records. -/
def rows (path : List String) : List Data → List (List Char)
  | [] => []
  | .record fields :: rest =>
    ('[' :: '[' :: renderPath path ++ [']', ']', '\n'] ++ renderFields fields) ::
      sections path fields ++ rows path rest
  | _ :: rest => rows path rest

end

/-- The text of a record as a document. -/
def print (fields : List (String × Data)) : List Char :=
  let top := renderFields fields
  let parts := (if top.isEmpty then [] else [top]) ++ sections [] fields
  (parts.intersperse ['\n']).flatten

end Highlight.Toml
