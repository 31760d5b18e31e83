import Highlight.Document.Basic

/-! # The view of a document

Where characters stand on the screen: columns and lines of equal size, shifted by the scroll
offset.
-/

namespace Highlight.Document

/-- Scroll to a vertical offset; there is nothing above the first line. -/
def scrollTo (d : Document) (top : Float) : Document :=
  { d with scrollTop := if top > 0 then top else 0 }

/-- The cell of the character behind a position. -/
def rectOf? (d : Document) (p : Position) : Option Rect :=
  (d.resolve? p).map fun (line, column) =>
    { x := column.toFloat * d.geometry.charWidth
      y := line.toFloat * d.geometry.lineHeight - d.scrollTop
      width := d.geometry.charWidth
      height := d.geometry.lineHeight }

end Highlight.Document
