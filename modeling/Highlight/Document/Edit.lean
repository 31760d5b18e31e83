import Highlight.Document.Basic

/-! # Edits

Every edit replaces a stretch of the text and then brings the blocks back in line with the lines
around the line where the edit started, its anchor. New lines get new blocks right behind the
anchor, vanished lines take the blocks behind the anchor with them, and the anchor loses its
styles.
-/

namespace Highlight

/-- Why an edit or a styling is refused. -/
inductive EditError where
  /-- There is no block of that index. -/
  | blockOutOfBounds (index : Nat)
  /-- The character offset lies outside the text, or behind the end of its range. -/
  | invalidOffset (offset : Nat)
  /-- A position is stale. -/
  | stalePosition
  /-- The start of a range lies behind its end. -/
  | invalidRange
  deriving Repr, DecidableEq

/-- The wording of a refusal. -/
def EditError.message : EditError → String
  | .blockOutOfBounds index => "Block " ++ toString index ++ " is out of bounds"
  | .invalidOffset offset => "Invalid character index: " ++ toString offset
  | .stalePosition => "Position no longer refers to live content"
  | .invalidRange => "Range start is after its end"

namespace Document

/-- The text of the block at an index, without its break. -/
def blockText (d : Document) (index : Nat) : Except EditError (List Char) :=
  if index < d.blocks.length then .ok (d.content index) else .error (.blockOutOfBounds index)

/-- Blocks brought to `count` of them: missing ones come in fresh behind the anchor, surplus ones
    behind the anchor go. -/
def alignBlocks (blocks : List Block) (anchor count next : Nat) : List Block :=
  if blocks.length < count then
    blocks.take (anchor + 1) ++ Block.fresh next (count - blocks.length) ++
      blocks.drop (anchor + 1)
  else if count < blocks.length then
    (blocks.take (anchor + 1) ++ blocks.drop (anchor + 1 + (blocks.length - count))).take
      (max count 1)
  else blocks

/-- The document with a new text whose changes start on the line `anchor`. -/
def withText (d : Document) (text : List Char) (anchor : Nat) : Document :=
  let anchor := min anchor (d.blocks.length - 1)
  let lines := Text.lines text
  let count := lines.length
  let blocks := alignBlocks d.blocks anchor count d.nextBlock
  { d with
    text
    lines
    lines_eq := rfl
    blocks := blocks.modify anchor fun b => { b with spans := [] }
    nextBlock := d.nextBlock + (count - d.blocks.length)
    modified := true }

/-- Insert a text at a character offset. The block there keeps its identity. -/
def insert (d : Document) (offset : Nat) (text : List Char) :
    Except EditError (Document × Change) :=
  if offset ≤ d.length then
    .ok (d.withText (d.text.take offset ++ text ++ d.text.drop offset) (d.lineAt offset),
      ⟨offset, text.length, 0⟩)
  else .error (.invalidOffset offset)

/-- Delete the characters from `start` up to `stop`. Blocks merged into the first touched one
    lose their identity. -/
def delete (d : Document) (start stop : Nat) : Except EditError (Document × Change) :=
  if d.length < stop then .error (.invalidOffset stop)
  else if stop < start then .error (.invalidOffset start)
  else
    .ok (d.withText (d.text.take start ++ d.text.drop stop) (d.lineAt start),
      ⟨start, 0, stop - start⟩)

/-- Replace the content of one block: its content is deleted and the text inserted in its place. -/
def replaceBlock (d : Document) (index : Nat) (text : List Char) :
    Except EditError (Document × Change) := do
  if d.blocks.length ≤ index then throw (.blockOutOfBounds index)
  let start := d.lineStart index
  let (cleared, removed) ← d.delete start (start + d.width index)
  let (filled, added) ← cleared.insert start text
  return (filled, ⟨start, added.added, removed.removed⟩)

/-- Put a new text in place of the whole one. All blocks are new, so every position handed out
    before is stale; the overlay, the scroll offset and the mark of a modified text are reset. -/
def setText (d : Document) (text : List Char) : Document × Change :=
  let lines := Text.lines text
  let count := lines.length
  ({ d with
      text
      lines
      lines_eq := rfl
      blocks := Block.fresh d.nextBlock count
      nextBlock := d.nextBlock + count
      connectors := []
      scrollTop := 0
      modified := false },
    ⟨0, text.length, d.length⟩)

/-- The document of a text. -/
def ofText (id : DocumentId) (text : List Char) (geometry : Geometry := {}) : Document :=
  ((Document.empty id geometry).setText text).1

end Document

end Highlight
