import Highlight.Toml.Scalar
import Highlight.Toml.Table

/-! # Reading TOML

A document is read line by line into headers and entries, which are then put together into one
record. Arrays and inline tables may be nested up to a limit.
-/

namespace Highlight.Toml

/-- Whether a character is a blank within a line. -/
def isSpace (c : Char) : Bool :=
  c == ' ' || c == '\t'

/-- The text behind the blanks at its front. -/
def skipSpace (s : List Char) : List Char :=
  s.dropWhile isSpace

/-- Whether a character may stand in a key without quotes. -/
def isBare (c : Char) : Bool :=
  c.isAlphanum || c == '_' || c == '-'

/-- The text behind blanks, breaks and comments. A comment holds no control character but tabs. -/
def skipTrivia? : Bool → List Char → Option (List Char)
  | _, [] => some []
  | _, '\n' :: rest => skipTrivia? false rest
  | _, '\r' :: '\n' :: rest => skipTrivia? false rest
  | true, c :: rest => if isPlain c then skipTrivia? true rest else none
  | false, c :: rest =>
    if isSpace c then skipTrivia? false rest
    else if c = '#' then skipTrivia? true rest
    else some (c :: rest)

/-- One part of a key: bare, between quotes or between apostrophes. -/
def simpleKey? (s : List Char) : Option (String × List Char) :=
  match s with
  | '"' :: rest => (basic? rest).map fun (key, rest) => (String.ofList key, rest)
  | '\'' :: rest => (literal? rest).map fun (key, rest) => (String.ofList key, rest)
  | _ => match s.span isBare with
    | ([], _) => none
    | (key, rest) => some (String.ofList key, rest)

/-- The parts of a key, separated by dots and with blanks around them. -/
def keyParts? : Nat → List Char → Option (List String × List Char)
  | 0, _ => none
  | fuel + 1, s => do
    let (key, rest) ← simpleKey? (skipSpace s)
    match skipSpace rest with
    | '.' :: rest =>
      let (keys, rest) ← keyParts? fuel rest
      return (key :: keys, rest)
    | rest => return ([key], rest)

/-- The deepest nesting of values, and the largest number of parts of a key, both short of it. -/
def depthLimit : Nat :=
  80

/-- A key: the path that leads to its last part, that part and the rest of the text. -/
def key? (s : List Char) : Option (List String × String × List Char) := do
  let (keys, rest) ← keyParts? (s.length + 1) s
  if keys.length < depthLimit then return (keys.dropLast, ← keys.getLast?, rest) else none

/-- The items of an array up to its closing bracket, with breaks and comments between them; a comma
    may stand before the bracket. -/
def items? (value? : List Char → Option (Data × List Char)) :
    Nat → List Char → Option (List Data × List Char)
  | 0, _ => none
  | fuel + 1, s => do
    match ← skipTrivia? false s with
    | ']' :: rest => return ([], rest)
    | s =>
      let (item, rest) ← value? s
      match ← skipTrivia? false rest with
      | ',' :: rest =>
        let (items, rest) ← items? value? fuel rest
        return (item :: items, rest)
      | ']' :: rest => return ([item], rest)
      | _ => none

/-- A key, an equals sign and a value, with blanks around each. -/
def entry? (value? : List Char → Option (Data × List Char)) (s : List Char) :
    Option ((List String × String × Data) × List Char) := do
  let (path, key, rest) ← key? s
  match rest with
  | '=' :: rest =>
    let (value, rest) ← value? (skipSpace rest)
    return ((path, key, value), skipSpace rest)
  | _ => none

/-- The entries of an inline table up to its closing brace, on one line. -/
def entries? (value? : List Char → Option (Data × List Char)) :
    Nat → List Char → Option (List (List String × String × Data) × List Char)
  | 0, _ => none
  | fuel + 1, s => do
    let (entry, rest) ← entry? value? s
    match rest with
    | ',' :: rest =>
      let (entries, rest) ← entries? value? fuel rest
      return (entry :: entries, rest)
    | '\x7d' :: rest => return ([entry], rest)
    | _ => none

/-- A value. `depth` says how much further arrays and inline tables may be nested. -/
def value? : Nat → List Char → Option (Data × List Char)
  | depth, s =>
    match s with
    | '"' :: _ => (string? s).map fun (text, rest) => (.text (String.ofList text), rest)
    | '\'' :: _ => (string? s).map fun (text, rest) => (.text (String.ofList text), rest)
    | '[' :: rest =>
      match depth with
      | 0 => none
      | depth + 1 => do
        let (items, rest) ← items? (value? depth) (rest.length + 1) rest
        return (.list items, rest)
    | '\x7b' :: rest =>
      match depth with
      | 0 => none
      | depth + 1 =>
        match skipSpace rest with
        | '\x7d' :: rest => some (.record [], rest)
        | _ => do
          let (entries, rest) ← entries? (value? depth) (rest.length + 1) rest
          return (← inlineTable? entries, rest)
    | 't' :: 'r' :: 'u' :: 'e' :: rest => some (.flag true, rest)
    | 'f' :: 'a' :: 'l' :: 's' :: 'e' :: rest => some (.flag false, rest)
    | _ => number? s

/-- The text behind the end of a line: blanks, an optional comment, then a break or the end. -/
def lineEnd? (s : List Char) : Option (List Char) :=
  let rest := match skipSpace s with
    | '#' :: comment => comment.dropWhile isPlain
    | s => s
  match rest with
  | [] => some []
  | '\n' :: rest => some rest
  | '\r' :: '\n' :: rest => some rest
  | _ => none

/-- The rest behind closing brackets. -/
def close? (brackets : List Char) (s : List Char) : Option (List Char) :=
  if brackets.isPrefixOf s then some (s.drop brackets.length) else none

/-- One line that is neither empty nor only a comment, and the text behind it. -/
def line? (s : List Char) : Option (Line × List Char) :=
  match s with
  | '[' :: '[' :: rest => do
    let (path, key, rest) ← key? rest
    return (.row path key, ← lineEnd? (← close? [']', ']'] rest))
  | '[' :: rest => do
    let (path, key, rest) ← key? rest
    return (.table path key, ← lineEnd? (← close? [']'] rest))
  | _ => do
    let ((path, key, value), rest) ← entry? (value? (depthLimit - 1)) s
    return (.entry path key value, ← lineEnd? rest)

/-- The lines of a document. -/
def lines? : Nat → List Char → Option (List Line)
  | 0, _ => none
  | fuel + 1, s =>
    match skipSpace s with
    | [] => some []
    | '\n' :: rest => lines? fuel rest
    | '\r' :: '\n' :: rest => lines? fuel rest
    | '#' :: comment => do lines? fuel (← lineEnd? ('#' :: comment))
    | s => do
      let (line, rest) ← line? s
      return line :: (← lines? fuel rest)

/-- A text without the mark of its byte order at the front. -/
def dropMark : List Char → List Char
  | '\ufeff' :: rest => rest
  | s => s

/-- The record that a document holds. -/
def parse? (s : List Char) : Option Data := do
  assemble? (← lines? (s.length + 1) (dropMark s))

/-- A list may hold more than a record has fields, and a named choice stands before something
    empty. -/
def rules : Data.Rules where
  surplus := true
  isUnit
    | .list [] => true
    | .record [] => true
    | _ => false

end Highlight.Toml
