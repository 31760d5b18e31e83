/-! # Positions

A position is a handle into one block of one document. It stays meaningful while the block lives
and is long enough; otherwise it is stale, which only the document can tell.
-/

namespace Highlight

/-- A document's identity. -/
abbrev DocumentId := Nat

/-- A block's identity; a document never gives one out twice. -/
abbrev BlockId := Nat

/-- The text form of a block's identity. -/
def BlockId.text (b : BlockId) : String :=
  "#" ++ toString b

/-- A handle to a place in a block: before the character at `offset`, or at the block's end. -/
structure Position where
  document : DocumentId
  block : BlockId
  offset : Nat
  deriving Repr, DecidableEq

namespace Position

/-- The first place of the same block. -/
def blockStart (p : Position) : Position :=
  { p with offset := 0 }

/-- The place `n` characters further in the same block, stale or not. -/
def advance (p : Position) (n : Nat) : Position :=
  { p with offset := p.offset + n }

/-- The text form of a position: its block and its offset. -/
def text (p : Position) : String :=
  BlockId.text p.block ++ "+" ++ toString p.offset

end Position

/-- A changed region between two positions. -/
structure Interval where
  start : Position
  stop : Position
  deriving Repr, DecidableEq

end Highlight
