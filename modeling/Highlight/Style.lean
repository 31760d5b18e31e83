/-! # Styles

What a stretch of text can be styled with, and the spans that carry styles inside one block.
-/

namespace Highlight

/-- A colour with an alpha channel; the channels run from 0 to 255. -/
structure Color where
  red : Nat
  green : Nat
  blue : Nat
  alpha : Nat := 255
  deriving Repr, DecidableEq

/-- The colour of connector lines unless configured otherwise. -/
def Color.lightGray : Color :=
  ⟨211, 211, 211, 255⟩

/-- What text is painted with. -/
inductive Brush where
  /-- One colour. -/
  | solid (color : Color)
  /-- Two colours that run into each other at an angle, in degrees. -/
  | gradient (start stop : Color) (angle : Nat)
  deriving Repr, DecidableEq

/-- The angle of every gradient that is written as a descriptor. -/
def Brush.defaultAngle : Nat :=
  45

/-- The colour a brush starts with. -/
def Brush.firstColor : Brush → Color
  | .solid color => color
  | .gradient start _ _ => start

/-- A single style attribute. -/
inductive Style where
  /-- Paint of the text. -/
  | foreground (brush : Brush)
  /-- Font weight, from 1 to 999. -/
  | weight (value : Nat)
  deriving Repr, DecidableEq

/-- Whether two attributes are of one kind, so that one replaces the other. -/
def Style.sameKind : Style → Style → Bool
  | .foreground _, .foreground _ => true
  | .weight _, .weight _ => true
  | _, _ => false

/-- A styled stretch `[start, stop)` of one block, in columns of the block. -/
structure Span where
  start : Nat
  stop : Nat
  style : Style
  deriving Repr, DecidableEq

namespace Span

/-- What is left of a span when the columns `[first, last)` are taken out of it. -/
def without (first last : Nat) (s : Span) : List Span :=
  if s.stop ≤ first || last ≤ s.start then [s]
  else
    (if s.start < first then [{ s with stop := first }] else []) ++
      (if last < s.stop then [{ s with start := last }] else [])

/-- Take the columns `[first, last)` out of every span whose style `affects` accepts. -/
def carve (first last : Nat) (affects : Style → Bool) (spans : List Span) : List Span :=
  spans.flatMap fun s => if affects s.style then s.without first last else [s]

/-- Style the columns `[first, last)`: the new span replaces what spans of its kind held there. -/
def paint (style : Style) (first last : Nat) (spans : List Span) : List Span :=
  carve first last (·.sameKind style) spans ++ [⟨first, last, style⟩]

/-- Remove every style from the columns `[first, last)`. -/
def clear (first last : Nat) (spans : List Span) : List Span :=
  carve first last (fun _ => true) spans

end Span

end Highlight
