import Highlight.Position
import Highlight.Style
import Highlight.Text.Line

/-! # Documents

A document is a text with one block per line. Blocks carry an identity and style spans, so that a
handle into one block survives edits of the others. Around the text stand a monospace layout, the
scroll offset and an overlay of connector lines.
-/

namespace Highlight

/-- A block: the identity and the styles of one line. -/
structure Block where
  id : BlockId
  spans : List Span := []
  deriving Repr, DecidableEq

/-- Monospace layout. -/
structure Geometry where
  charWidth : Float := 8
  lineHeight : Float := 16
  viewportWidth : Float := 800
  viewportHeight : Float := 600

/-- An upright rectangle in viewport coordinates. -/
structure Rect where
  x : Float
  y : Float
  width : Float
  height : Float

/-- The lower edge of a rectangle. -/
def Rect.bottom (r : Rect) : Float :=
  r.y + r.height

/-- How connector lines are drawn: a colour and the lengths of dash and gap. -/
structure Stroke where
  color : Color := .lightGray
  dash : Float := 4
  gap : Float := 3

/-- A vertical line that joins a pair of brackets. -/
structure Connector where
  left : Float
  top : Float
  height : Float
  stroke : Stroke

/-- One change of a text: at `offset`, `removed` characters gave way to `added` ones. -/
structure Change where
  offset : Nat
  added : Nat
  removed : Nat
  deriving Repr, DecidableEq

/-- The offset behind the added text. -/
def Change.stop (c : Change) : Nat :=
  c.offset + c.added

/-- Plain text inside one block. -/
structure Run where
  start : Position
  text : List Char
  deriving Repr, DecidableEq

/-- The place before the `i`-th character of a run, or its end. -/
def Run.positionAt (r : Run) (i : Nat) : Position :=
  r.start.advance i

/-- A text with blocks, styles, layout and overlay. -/
structure Document where
  id : DocumentId
  text : List Char := []
  /-- The lines of the text, with their breaks; kept beside it because most questions about a
      document are about its lines. -/
  lines : List (List Char) := Text.lines text
  lines_eq : lines = Text.lines text := by rfl
  blocks : List Block
  /-- The identity the next new block gets. -/
  nextBlock : Nat
  geometry : Geometry := {}
  scrollTop : Float := 0
  connectors : List Connector := []
  modified : Bool := false
  path : Option String := none

/-- `count` new blocks with the identities from `first` on. -/
def Block.fresh (first count : Nat) : List Block :=
  (List.range count).map fun i => { id := first + i }

namespace Document

/-- The document without text: one empty block. -/
def empty (id : DocumentId) (geometry : Geometry := {}) : Document :=
  { id, blocks := Block.fresh 0 1, nextBlock := 1, geometry }

/-- The number of characters. -/
def length (d : Document) : Nat :=
  d.text.length

/-- The content of the line at an index, without its break. -/
def content (d : Document) (line : Nat) : List Char :=
  Text.lineContent (d.lines.getD line [])

/-- The number of characters in a line's content. -/
def width (d : Document) (line : Nat) : Nat :=
  Text.contentLength (d.lines.getD line [])

@[simp] theorem width_eq_length (d : Document) (line : Nat) :
    d.width line = (d.content line).length :=
  Text.contentLength_eq_length _

/-- The index of the line that holds a character offset. -/
def lineAt (d : Document) (offset : Nat) : Nat :=
  Text.lineAt d.lines offset

/-- The character offset at which a line starts. -/
def lineStart (d : Document) (line : Nat) : Nat :=
  Text.lineStart d.lines line

/-- The identity of the block at an index. -/
def blockId? (d : Document) (line : Nat) : Option BlockId :=
  d.blocks[line]?.map (·.id)

/-- The current index of a block, if it lives. -/
def blockIndex? (d : Document) (id : BlockId) : Option Nat :=
  d.blocks.findIdx? (·.id == id)

/-- A place in the block at an index. -/
def place (d : Document) (line offset : Nat) : Position :=
  ⟨d.id, (d.blockId? line).getD 0, offset⟩

/-! ## Resolving positions -/

/-- The line index and the column of a position that is not stale: it belongs to this document, its
    block lives and is long enough. -/
def resolve? (d : Document) (p : Position) : Option (Nat × Nat) :=
  if p.document = d.id then
    match d.blockIndex? p.block with
    | some line => if p.offset ≤ d.width line then some (line, p.offset) else none
    | none => none
  else none

/-- Whether a position is not stale. -/
def isValid (d : Document) (p : Position) : Bool :=
  (d.resolve? p).isSome

/-- The block of a position that is not stale. -/
def blockOf? (d : Document) (p : Position) : Option BlockId :=
  (d.resolve? p).map fun _ => p.block

/-- The character offset of a position that is not stale. -/
def offsetOf? (d : Document) (p : Position) : Option Nat :=
  (d.resolve? p).map fun (line, column) => d.lineStart line + column

/-- The order of two places, by line and then by column. -/
def comparePlaces (a b : Nat × Nat) : Ordering :=
  (compare a.1 b.1).then (compare a.2 b.2)

/-- The order of two positions; none if either is stale. -/
def compare? (d : Document) (a b : Position) : Option Ordering :=
  match d.resolve? a, d.resolve? b with
  | some a, some b => some (comparePlaces a b)
  | _, _ => none

/-- The position of a character offset. An offset inside a line break stands for the end of the
    line's content. -/
def positionAt? (d : Document) (offset : Nat) : Option Position :=
  if offset ≤ d.length then
    let line := d.lineAt offset
    some (d.place line (min (offset - d.lineStart line) (d.width line)))
  else none

/-- The first place of the document. -/
def contentStart (d : Document) : Position :=
  d.place 0 0

/-- The last place of the document. -/
def contentEnd (d : Document) : Position :=
  let last := d.blocks.length - 1
  d.place last (d.width last)

/-- The first and the last place of the block that holds a character offset. -/
def blockBounds? (d : Document) (offset : Nat) : Option (Position × Position) :=
  if offset ≤ d.length then
    let line := d.lineAt offset
    some (d.place line 0, d.place line (d.width line))
  else none

/-- The character behind a position; none at the end of a block and for a stale position. -/
def charAt? (d : Document) (p : Position) : Option Char :=
  (d.resolve? p).bind fun (line, column) => (d.content line)[column]?

/-- The run of one whole block, unless it is empty. -/
def run? (d : Document) (line : Nat) : Option Run :=
  if (d.content line).isEmpty then none else some ⟨d.place line 0, d.content line⟩

/-- The runs of all blocks from the one of `start` to the one of `stop`; none if either position is
    stale. -/
def runsBetween (d : Document) (start stop : Position) : List Run :=
  match d.resolve? start, d.resolve? stop with
  | some (first, _), some (last, _) =>
    ((List.range (last + 1)).drop first).filterMap d.run?
  | _, _ => []

end Document

end Highlight
