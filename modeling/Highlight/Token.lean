import Highlight.Text.Blank

/-! # Tokens

A text is cut into tokens at blanks and at separators. Blanks belong to no token, each separator
is a token of its own, and the runs between them are tokens as long as they can be.
-/

namespace Highlight

/-- A token: its text and where it stands, in character offsets of the text it was cut from. -/
structure Token where
  start : Nat
  stop : Nat
  text : List Char
  deriving Repr, DecidableEq

namespace Token

/-- The token for a pending run that ends before `offset`, if any; the run is held in reverse. -/
def close (pending : List Char) (offset : Nat) : List Token :=
  if pending.isEmpty then [] else [⟨offset - pending.length, offset, pending.reverse⟩]

/-- Cut a text that continues at `offset` behind the pending run. -/
def scan (isSeparator : Char → Bool) (offset : Nat) (pending : List Char) : List Char → List Token
  | [] => close pending offset
  | c :: rest =>
    if Text.isBlank c then close pending offset ++ scan isSeparator (offset + 1) [] rest
    else if isSeparator c then
      close pending offset ++ ⟨offset, offset + 1, [c]⟩ :: scan isSeparator (offset + 1) [] rest
    else scan isSeparator (offset + 1) (c :: pending) rest

end Token

/-- The tokens of a text, in order. -/
def tokenize (isSeparator : Char → Bool) (text : List Char) : List Token :=
  Token.scan isSeparator 0 [] text

end Highlight
