import Highlight.Document.Edit

/-! # Styling a document

Styles are applied to and cleared from the stretch between two positions, block by block.
-/

namespace Highlight

/-- A styled stretch of the whole text, in character offsets. -/
structure StyledRange where
  start : Nat
  stop : Nat
  style : Style
  deriving Repr, DecidableEq

namespace Document

/-- The columns of line `line` that lie between two places of the document. -/
def columnsBetween (d : Document) (first last : Nat × Nat) (line : Nat) : Nat × Nat :=
  (if line = first.1 then first.2 else 0,
    if line = last.1 then last.2 else d.width line)

/-- Change the spans of every block that has columns between two positions. -/
def mapSpans (d : Document) (start stop : Position) (f : Nat → Nat → List Span → List Span) :
    Except EditError Document :=
  match d.resolve? start, d.resolve? stop with
  | some first, some last =>
    if comparePlaces first last = .gt then .error .invalidRange
    else
      .ok { d with
        blocks := d.blocks.mapIdx fun line block =>
          if first.1 ≤ line ∧ line ≤ last.1 then
            let (left, right) := d.columnsBetween first last line
            if left < right then { block with spans := f left right block.spans } else block
          else block }
  | _, _ => .error .stalePosition

/-- Apply one style between two positions; it replaces styles of its kind there. -/
def applyStyle (d : Document) (start stop : Position) (style : Style) :
    Except EditError Document :=
  d.mapSpans start stop (Span.paint style)

/-- Remove every style between two positions. -/
def clearStyles (d : Document) (start stop : Position) : Except EditError Document :=
  d.mapSpans start stop Span.clear

/-- The spans of the block at an index. -/
def blockSpans (d : Document) (index : Nat) : List Span :=
  (d.blocks[index]?.map (·.spans)).getD []

/-- Whether one range comes before another or starts and stops with it. -/
def StyledRange.le (a b : StyledRange) : Bool :=
  a.start < b.start || (a.start == b.start && a.stop ≤ b.stop)

/-- The styled stretches of blocks and their lines, the first of which starts at `start`. -/
def rangesFrom (start : Nat) : List Block → List (List Char) → List StyledRange
  | block :: blocks, line :: lines =>
    block.spans.map (fun s => ⟨start + s.start, start + s.stop, s.style⟩) ++
      rangesFrom (start + line.length) blocks lines
  | _, _ => []

/-- Every styled stretch of the text, by start and then by end; stretches over the same characters
    keep the order of their spans. -/
def styledRanges (d : Document) : List StyledRange :=
  (rangesFrom 0 d.blocks d.lines).mergeSort StyledRange.le

/-- The styles over the character at an offset. -/
def stylesAt (d : Document) (offset : Nat) : List Style :=
  (d.styledRanges.filter fun r => r.start ≤ offset && offset < r.stop).map (·.style)

end Document

end Highlight
