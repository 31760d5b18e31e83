/-! # Lines

A text is cut into lines by eight line breaks: line feed, vertical tab, form feed, carriage
return, next line, line separator, paragraph separator, and the pair of carriage return and line
feed, which counts as one. Each line carries the break that ends it; the last line has none, so
there is always one more line than there are breaks.
-/

namespace Highlight.Text

/-- Whether a character ends a line, alone or as part of a pair. -/
def isBreak (c : Char) : Bool :=
  c == '\n' || c == '\x0b' || c == '\x0c' || c == '\r' || c == '\u0085' || c == '\u2028' ||
    c == '\u2029'

/-- A character put in front of the first line. -/
def consLine (c : Char) : List (List Char) → List (List Char)
  | [] => [[c]]
  | line :: rest => (c :: line) :: rest

/-- The lines of a text, each with the break that ends it. -/
def lines : List Char → List (List Char)
  | [] => [[]]
  | '\r' :: '\n' :: rest => ['\r', '\n'] :: lines rest
  | c :: rest => if isBreak c then [c] :: lines rest else consLine c (lines rest)

/-- A line without its break. -/
def lineContent (line : List Char) : List Char :=
  line.takeWhile (!isBreak ·)

/-- The number of characters before a line's break, counted without building the content. -/
def contentLength (line : List Char) : Nat :=
  line.findIdx isBreak

@[simp] theorem contentLength_eq_length (line : List Char) :
    contentLength line = (lineContent line).length := by
  induction line with
  | nil => rfl
  | cons c rest ih =>
    rw [contentLength, lineContent, List.findIdx_cons, List.takeWhile_cons]
    cases isBreak c
    · exact congrArg (· + 1) ih
    · rfl

/-- The index of the line that holds the character offset `i`: as many as there are breaks that
    end at or before `i`. An offset inside a pair is still on the line that the pair ends. -/
def lineAt : List (List Char) → Nat → Nat
  | [], _ => 0
  | [_], _ => 0
  | line :: rest, i => if i < line.length then 0 else lineAt rest (i - line.length) + 1

/-- The character offset at which line `k` starts. -/
def lineStart : List (List Char) → Nat → Nat
  | line :: rest, k + 1 => line.length + lineStart rest k
  | _, _ => 0

end Highlight.Text
