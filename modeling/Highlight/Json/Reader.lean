import Highlight.Data
import Highlight.Decimal

/-! # Reading JSON

The grammar is the usual one, without extensions and without a limit on nesting. A string that
escapes half of a surrogate pair is well written but holds no text.
-/

namespace Highlight.Json

/-- Whether a character may stand between tokens. -/
def isSpace (c : Char) : Bool :=
  c == ' ' || c == '\n' || c == '\t' || c == '\r'

/-- The text from the next token on. -/
def skipSpace (s : List Char) : List Char :=
  s.dropWhile isSpace

/-- The value of a hexadecimal digit. -/
def hexDigit? (c : Char) : Option Nat :=
  if '0' ≤ c ∧ c ≤ '9' then some (c.toNat - '0'.toNat)
  else if 'a' ≤ c ∧ c ≤ 'f' then some (c.toNat - 'a'.toNat + 10)
  else if 'A' ≤ c ∧ c ≤ 'F' then some (c.toNat - 'A'.toNat + 10)
  else none

/-- The value of a row of hexadecimal digits. -/
def hexValue? (digits : List Char) : Option Nat :=
  digits.foldlM (fun value c => (hexDigit? c).map (value * 16 + ·)) 0

/-- A part of a string: a character, or a 16-bit code unit written as an escape. -/
inductive Piece where
  | char (c : Char)
  | unit (code : Nat)
  deriving Repr, DecidableEq

/-- The character that a one-letter escape stands for. -/
def shortEscape? : Char → Option Char
  | '"' => some '"'
  | '\\' => some '\\'
  | '/' => some '/'
  | 'b' => some '\x08'
  | 'f' => some '\x0c'
  | 'n' => some '\n'
  | 'r' => some '\r'
  | 't' => some '\t'
  | _ => none

/-- The parts of a string up to its closing quote, and what follows it. Control characters have to
    be escaped. -/
def pieces? : List Char → Option (List Piece × List Char)
  | [] => none
  | '"' :: rest => some ([], rest)
  | '\\' :: 'u' :: a :: b :: c :: d :: rest => do
    let code ← hexValue? [a, b, c, d]
    let (pieces, rest) ← pieces? rest
    return (.unit code :: pieces, rest)
  | '\\' :: c :: rest => do
    let c ← shortEscape? c
    let (pieces, rest) ← pieces? rest
    return (.char c :: pieces, rest)
  | c :: rest =>
    if c < ' ' then none
    else do
      let (pieces, rest) ← pieces? rest
      return (.char c :: pieces, rest)

/-- Whether a code unit is the first half of a pair. -/
def isLead (code : Nat) : Bool :=
  0xd800 ≤ code && code ≤ 0xdbff

/-- Whether a code unit is the second half of a pair. -/
def isTrail (code : Nat) : Bool :=
  0xdc00 ≤ code && code ≤ 0xdfff

/-- The characters of the parts of a string; none if half of a pair stands alone. -/
def join? : List Piece → Option (List Char)
  | [] => some []
  | .char c :: rest => (join? rest).map (c :: ·)
  | .unit code :: rest =>
    if isLead code then
      match rest with
      | .unit trail :: rest =>
        if isTrail trail then
          (join? rest).map
            (Char.ofNat (0x10000 + (code - 0xd800) * 0x400 + (trail - 0xdc00)) :: ·)
        else none
      | _ => none
    else if isTrail code then none
    else (join? rest).map (Char.ofNat code :: ·)

/-- Decimal digits at the front of a text, and the rest. -/
def digits (s : List Char) : List Char × List Char :=
  s.span Char.isDigit

/-- The whole part of a number: a zero, or digits that start with another one. -/
def whole? (s : List Char) : Option (List Char × List Char) :=
  match s with
  | '0' :: rest => some (['0'], rest)
  | _ => match digits s with
    | ([], _) => none
    | (ds, rest) => some (ds, rest)

/-- The digits behind a point, if one follows. -/
def fraction? : List Char → Option (Option (List Char) × List Char)
  | '.' :: rest => match digits rest with
    | ([], _) => none
    | (ds, rest) => some (some ds, rest)
  | s => some (none, s)

/-- The power of ten, if one follows. -/
def exponent? (s : List Char) : Option (Option Int × List Char) :=
  match s with
  | c :: rest =>
    if c = 'e' ∨ c = 'E' then
      let (negative, rest) := match rest with
        | '+' :: rest => (false, rest)
        | '-' :: rest => (true, rest)
        | _ => (false, rest)
      match digits rest with
      | ([], _) => none
      | (ds, rest) =>
        let value : Int := (Decimal.ofDigits ds [] 0).digits
        some (some (if negative then -value else value), rest)
    else some (none, s)
  | [] => some (none, s)

/-- A number. -/
def number? (s : List Char) : Option (Data × List Char) := do
  let (negative, rest) := match s with
    | '-' :: rest => (true, rest)
    | _ => (false, s)
  let (whole, rest) ← whole? rest
  let (fraction, rest) ← fraction? rest
  let (exponent, rest) ← exponent? rest
  let size := Decimal.ofDigits whole (fraction.getD []) (exponent.getD 0)
  if fraction.isNone && exponent.isNone then
    return (.integer (if negative then -size.digits else size.digits), rest)
  else
    return (.real (if negative then -size.toFloat else size.toFloat), rest)

/-- The text without a word at its front. -/
def dropWord? (word : String) (s : List Char) : Option (List Char) :=
  if word.toList.isPrefixOf s then some (s.drop word.length) else none

/-- A record, unless one of its names holds no text. -/
def record (fields : List (Option String × Data)) : Data :=
  match fields.mapM fun (name, value) => name.map (·, value) with
  | some fields => .record fields
  | none => .unreadable

mutual

/-- A value, behind any space. The fuel bounds the nesting and the number of items. -/
def value? : Nat → List Char → Option (Data × List Char)
  | 0, _ => none
  | fuel + 1, s =>
    match skipSpace s with
    | '"' :: rest => do
      let (pieces, rest) ← pieces? rest
      match join? pieces with
      | some text => return (.text (String.ofList text), rest)
      | none => return (.unreadable, rest)
    | '[' :: rest =>
      match skipSpace rest with
      | ']' :: rest => some (.list [], rest)
      | _ => (items? fuel rest).map fun (items, rest) => (.list items, rest)
    | '\x7b' :: rest =>
      match skipSpace rest with
      | '\x7d' :: rest => some (.record [], rest)
      | _ => (fields? fuel rest).map fun (fields, rest) => (record fields, rest)
    | 't' :: rest => (dropWord? "rue" rest).map (.flag true, ·)
    | 'f' :: rest => (dropWord? "alse" rest).map (.flag false, ·)
    | 'n' :: rest => (dropWord? "ull" rest).map (.null, ·)
    | rest => number? rest

/-- The items of a list up to its closing bracket. -/
def items? : Nat → List Char → Option (List Data × List Char)
  | 0, _ => none
  | fuel + 1, s => do
    let (item, rest) ← value? fuel s
    match skipSpace rest with
    | ',' :: rest =>
      let (items, rest) ← items? fuel rest
      return (item :: items, rest)
    | ']' :: rest => return ([item], rest)
    | _ => none

/-- The fields of a record up to its closing brace. -/
def fields? : Nat → List Char → Option (List (Option String × Data) × List Char)
  | 0, _ => none
  | fuel + 1, s =>
    match skipSpace s with
    | '"' :: rest => do
      let (pieces, rest) ← pieces? rest
      let name := (join? pieces).map String.ofList
      match skipSpace rest with
      | ':' :: rest =>
        let (value, rest) ← value? fuel rest
        match skipSpace rest with
        | ',' :: rest =>
          let (fields, rest) ← fields? fuel rest
          return ((name, value) :: fields, rest)
        | '\x7d' :: rest => return ([(name, value)], rest)
        | _ => none
      | _ => none
    | _ => none

end

/-- The value that a text holds, with nothing but space around it. -/
def parse? (s : List Char) : Option Data :=
  match value? (2 * s.length + 2) s with
  | some (value, rest) => if (skipSpace rest).isEmpty then some value else none
  | none => none

/-- Records are strict, and a named choice stands before a null. -/
def rules : Data.Rules where
  surplus := false
  isUnit
    | .null => true
    | _ => false

end Highlight.Json
