import Highlight.Data
import Highlight.Decimal
import Highlight.Json.Reader

/-! # Scalars of TOML

Strings in their four forms, numbers and date-times. Each reader takes the text behind what it has
already looked at and gives the value and the rest.
-/

namespace Highlight.Toml

open Json (hexValue?)

/-- Whether a character may stand in a comment or between quotes: a tab or no control character. -/
def isPlain (c : Char) : Bool :=
  c == '\t' || (' ' ≤ c && c != '\x7f')

/-- Whether a character may stand between apostrophes. -/
def isLiteral (c : Char) : Bool :=
  isPlain c && c != '\''

/-- The character of a code point, unless it is half of a surrogate pair or out of range. -/
def scalar? (code : Nat) : Option Char :=
  if code < 0xd800 ∨ (0xdfff < code ∧ code < 0x110000) then some (Char.ofNat code) else none

/-- The character that a one-letter escape stands for. -/
def shortEscape? : Char → Option Char
  | '"' => some '"'
  | '\\' => some '\\'
  | 'b' => some '\x08'
  | 'f' => some '\x0c'
  | 'n' => some '\n'
  | 'r' => some '\r'
  | 't' => some '\t'
  | _ => none

/-- A character put before the text of a reader's result. -/
def prepend (c : Char) : Option (List Char × List Char) → Option (List Char × List Char)
  | some (text, rest) => some (c :: text, rest)
  | none => none

/-- The text up to the closing quote, with escapes. -/
def basic? : List Char → Option (List Char × List Char)
  | [] => none
  | '"' :: rest => some ([], rest)
  | '\\' :: 'u' :: a :: b :: c :: d :: rest => do
    prepend (← scalar? (← hexValue? [a, b, c, d])) (basic? rest)
  | '\\' :: 'U' :: a :: b :: c :: d :: e :: f :: g :: h :: rest => do
    prepend (← scalar? (← hexValue? [a, b, c, d, e, f, g, h])) (basic? rest)
  | '\\' :: c :: rest => do prepend (← shortEscape? c) (basic? rest)
  | c :: rest => if isPlain c then prepend c (basic? rest) else none

/-- The text up to the closing apostrophe, as it stands. -/
def literal? (s : List Char) : Option (List Char × List Char) :=
  match s.span isLiteral with
  | (text, '\'' :: rest) => some (text, rest)
  | _ => none

/-- What a reader of a text over several lines has to do with the blanks and breaks ahead. -/
inductive Folding where
  /-- They belong to the text. -/
  | keep
  /-- A backslash came before blanks: only blanks and then a break may follow. -/
  | awaitBreak
  /-- A backslash at the end of a line: they are left out. -/
  | skip
  deriving Repr, DecidableEq

/-- The text up to three closing quotes, with escapes, over several lines. Up to two quotes more
    belong to the text. -/
def multiBasic? : Folding → List Char → Option (List Char × List Char)
  | _, [] => none
  | .awaitBreak, '\n' :: rest => multiBasic? .skip rest
  | .awaitBreak, '\r' :: '\n' :: rest => multiBasic? .skip rest
  | .awaitBreak, c :: rest => if c = ' ' ∨ c = '\t' then multiBasic? .awaitBreak rest else none
  | .skip, ' ' :: rest => multiBasic? .skip rest
  | .skip, '\t' :: rest => multiBasic? .skip rest
  | .skip, '\n' :: rest => multiBasic? .skip rest
  | .skip, '\r' :: '\n' :: rest => multiBasic? .skip rest
  | _, '"' :: '"' :: '"' :: '"' :: '"' :: rest => some (['"', '"'], rest)
  | _, '"' :: '"' :: '"' :: '"' :: rest => some (['"'], rest)
  | _, '"' :: '"' :: '"' :: rest => some ([], rest)
  | _, '\\' :: 'u' :: a :: b :: c :: d :: rest => do
    prepend (← scalar? (← hexValue? [a, b, c, d])) (multiBasic? .keep rest)
  | _, '\\' :: 'U' :: a :: b :: c :: d :: e :: f :: g :: h :: rest => do
    prepend (← scalar? (← hexValue? [a, b, c, d, e, f, g, h])) (multiBasic? .keep rest)
  | _, '\\' :: '\n' :: rest => multiBasic? .skip rest
  | _, '\\' :: '\r' :: '\n' :: rest => multiBasic? .skip rest
  | _, '\\' :: c :: rest =>
    if c = ' ' ∨ c = '\t' then multiBasic? .awaitBreak rest
    else do prepend (← shortEscape? c) (multiBasic? .keep rest)
  | _, '\r' :: '\n' :: rest => prepend '\n' (multiBasic? .keep rest)
  | _, c :: rest =>
    if isPlain c ∨ c = '\n' then prepend c (multiBasic? .keep rest) else none

/-- The text up to three closing apostrophes, as it stands, over several lines. Up to two
    apostrophes more belong to the text. -/
def multiLiteral? : List Char → Option (List Char × List Char)
  | [] => none
  | '\'' :: '\'' :: '\'' :: '\'' :: '\'' :: rest => some (['\'', '\''], rest)
  | '\'' :: '\'' :: '\'' :: '\'' :: rest => some (['\''], rest)
  | '\'' :: '\'' :: '\'' :: rest => some ([], rest)
  | '\r' :: '\n' :: rest => prepend '\n' (multiLiteral? rest)
  | c :: rest => if isPlain c ∨ c = '\n' then prepend c (multiLiteral? rest) else none

/-- A text without the break at its front, if there is one. -/
def dropBreak : List Char → List Char
  | '\n' :: rest => rest
  | '\r' :: '\n' :: rest => rest
  | s => s

/-- A string in any of its four forms. -/
def string? : List Char → Option (List Char × List Char)
  | '"' :: '"' :: '"' :: rest => multiBasic? .keep (dropBreak rest)
  | '"' :: rest => basic? rest
  | '\'' :: '\'' :: '\'' :: rest => multiLiteral? (dropBreak rest)
  | '\'' :: rest => literal? rest
  | _ => none

/-! ## Numbers -/

/-- Digits at the front of a text, where single underscores may stand between them. -/
def grouped (isDigit : Char → Bool) : List Char → List Char × List Char
  | [] => ([], [])
  | c :: rest =>
    if isDigit c then
      let (digits, rest) := grouped isDigit rest
      (c :: digits, rest)
    else
      match c, rest with
      | '_', d :: after =>
        if isDigit d then
          let (digits, rest) := grouped isDigit after
          (d :: digits, rest)
        else ([], c :: rest)
      | _, _ => ([], c :: rest)

/-- One or more digits, the first of them not an underscore. -/
def someDigits? (isDigit : Char → Bool) (s : List Char) : Option (List Char × List Char) :=
  match s with
  | c :: _ => if isDigit c then some (grouped isDigit s) else none
  | [] => none

/-- The sign at the front of a number, and the rest. -/
def sign : List Char → Bool × List Char
  | '-' :: rest => (true, rest)
  | '+' :: rest => (false, rest)
  | s => (false, s)

/-- A decimal number without a leading zero. -/
def whole? (s : List Char) : Option (List Char × List Char) :=
  match s with
  | '0' :: rest => some (['0'], rest)
  | _ => someDigits? Char.isDigit s

/-- The power of ten behind its letter. -/
def power? (s : List Char) : Option (Int × List Char) := do
  let (negative, rest) := sign s
  let (digits, rest) ← someDigits? Char.isDigit rest
  let value : Int := (Decimal.ofDigits digits [] 0).digits
  return (if negative then -value else value, rest)

/-- Whether a letter announces a power of ten. -/
def isPowerMark (c : Char) : Bool :=
  c == 'e' || c == 'E'

/-- The largest whole number that fits, and one more for negative ones. -/
def integerLimit : Nat :=
  Nat.pow 2 63

/-- A whole number within 64 bits. -/
def integer? (negative : Bool) (size : Nat) : Option Data :=
  if negative then if size ≤ integerLimit then some (.integer (-size)) else none
  else if size < integerLimit then some (.integer size) else none

/-- A number with a point or a power of ten; it must not be too large, unless it is negative. -/
def real? (negative : Bool) (size : Decimal) : Option Data :=
  let x := size.toFloat
  if negative then some (.real (-x)) else if x.isInf then none else some (.real x)

/-- A decimal number. -/
def decimal? (s : List Char) : Option (Data × List Char) := do
  let (negative, rest) := sign s
  let (whole, rest) ← whole? rest
  match rest with
  | '.' :: after =>
    let (fraction, rest) ← someDigits? Char.isDigit after
    match rest with
    | c :: after =>
      if isPowerMark c then
        let (power, rest) ← power? after
        return (← real? negative (.ofDigits whole fraction power), rest)
      else return (← real? negative (.ofDigits whole fraction 0), rest)
    | [] => return (← real? negative (.ofDigits whole fraction 0), rest)
  | c :: after =>
    if isPowerMark c then
      let (power, rest) ← power? after
      return (← real? negative (.ofDigits whole [] power), rest)
    else return (← integer? negative (Decimal.ofDigits whole [] 0).digits, rest)
  | [] => return (← integer? negative (Decimal.ofDigits whole [] 0).digits, rest)

/-- A whole number to another base, written after a mark of that base. -/
def based? (base : Nat) (s : List Char) : Option (Data × List Char) := do
  let isDigit := fun c => (Json.hexDigit? c).any (· < base)
  let (digits, rest) ← someDigits? isDigit s
  let size := digits.foldl (fun value c => value * base + (Json.hexDigit? c).getD 0) 0
  return (← integer? false size, rest)

/-- Infinity or the number that is none, behind an optional sign. -/
def special? (s : List Char) : Option (Data × List Char) :=
  let (negative, rest) := sign s
  match rest with
  | 'i' :: 'n' :: 'f' :: rest => some (.real (if negative then -(1 / 0) else 1 / 0), rest)
  | 'n' :: 'a' :: 'n' :: rest => some (.real (0 / 0), rest)
  | _ => none

/-! ## Date-times -/

/-- Exactly `count` digits and their value. -/
def fixed? (count : Nat) (s : List Char) : Option (Nat × List Char) :=
  let digits := s.take count
  if digits.length = count ∧ digits.all Char.isDigit then
    some ((Decimal.ofDigits digits [] 0).digits, s.drop count)
  else none

/-- Exactly two digits with a value in a range. -/
def two? (low high : Nat) (s : List Char) : Option (Nat × List Char) :=
  (fixed? 2 s).filter fun (value, _) => low ≤ value ∧ value ≤ high

/-- The rest behind one expected character. -/
def after? (mark : Char) : List Char → Option (List Char)
  | c :: rest => if c = mark then some rest else none
  | [] => none

/-- The number of days of a month. -/
def daysIn (year month : Nat) : Nat :=
  if month = 2 then
    if year % 4 = 0 ∧ (year % 100 ≠ 0 ∨ year % 400 = 0) then 29 else 28
  else if month = 4 ∨ month = 6 ∨ month = 9 ∨ month = 11 then 30
  else 31

/-- The rest behind a date of the calendar. -/
def date? (s : List Char) : Option (List Char) := do
  let (year, rest) ← fixed? 4 s
  let (month, rest) ← two? 1 12 (← after? '-' rest)
  let (day, rest) ← two? 1 31 (← after? '-' rest)
  if day ≤ daysIn year month then return rest else none

/-- The rest behind a time of the day, with any fraction of the second. -/
def time? (s : List Char) : Option (List Char) := do
  let (_, rest) ← two? 0 23 s
  let (_, rest) ← two? 0 59 (← after? ':' rest)
  let (_, rest) ← two? 0 60 (← after? ':' rest)
  match rest with
  | '.' :: after =>
    let (digits, behind) := after.span Char.isDigit
    return if digits.isEmpty then rest else behind
  | _ => return rest

/-- Whether a time of the day starts here. -/
def startsTime (s : List Char) : Bool :=
  match two? 0 23 s with
  | some (_, ':' :: _) => true
  | _ => false

/-- The rest behind an offset from universal time, if one follows. -/
def offset? (s : List Char) : Option (List Char) :=
  match s with
  | c :: rest =>
    if c = 'Z' ∨ c = 'z' then some rest
    else if c = '+' ∨ c = '-' then do
      let (_, rest) ← two? 0 23 rest
      let (_, rest) ← two? 0 59 (← after? ':' rest)
      return rest
    else some s
  | [] => some s

/-- Whether a date starts here: four digits and a dash. -/
def startsDate (s : List Char) : Bool :=
  match fixed? 4 s with
  | some (_, '-' :: _) => true
  | _ => false

/-- What a date-time counts as: a record without any field a reader could ask for. -/
def moment : Data :=
  .record [("$datetime", .null)]

/-- A date, a time, or a date with a time and an optional offset. -/
def moment? (s : List Char) : Option (Data × List Char) :=
  if startsDate s then do
    let rest ← date? s
    match rest with
    | c :: after =>
      if (c = 'T' ∨ c = 't' ∨ c = ' ') ∧ startsTime after then
        return (moment, ← offset? (← time? after))
      else return (moment, rest)
    | [] => return (moment, rest)
  else (time? s).map (moment, ·)

/-- A number or a date-time. -/
def number? (s : List Char) : Option (Data × List Char) :=
  if startsDate s ∨ startsTime s then moment? s
  else match s with
    | '0' :: 'x' :: rest => based? 16 rest
    | '0' :: 'o' :: rest => based? 8 rest
    | '0' :: 'b' :: rest => based? 2 rest
    | _ => match special? s with
      | some found => some found
      | none => decimal? s

end Highlight.Toml
