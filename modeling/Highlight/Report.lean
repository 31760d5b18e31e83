import Highlight.Document.Paint
import Highlight.Json.Printer
import Highlight.Text.Cut

/-! # Reports

What the highlighters left on a document, as lines of text or as JSON.
-/

namespace Highlight

/-- A styled stretch with the text it covers. -/
structure ReportSpan where
  start : Nat
  stop : Nat
  text : List Char
  style : Style
  deriving Repr, DecidableEq

/-- The language of a document, its styled stretches and its connectors. -/
structure Report where
  language : Option String
  spans : List ReportSpan
  connectors : List Connector

/-- The channels of a colour in the order of reports, by name. -/
def Color.channels (c : Color) : List (String × Nat) :=
  [("a", c.alpha), ("r", c.red), ("g", c.green), ("b", c.blue)]

/-- A value made of named parts, as in `Name { part: value }`. -/
def describeParts (name : String) (parts : List (String × String)) : String :=
  name ++ " \x7b " ++ String.intercalate ", " (parts.map fun (part, value) => part ++ ": " ++ value)
    ++ " \x7d"

/-- A colour in words. -/
def Color.describe (c : Color) : String :=
  describeParts "Color" (c.channels.map fun (channel, value) => (channel, toString value))

/-- The angle of a gradient as a number with a point. -/
def describeAngle (angle : Nat) : String :=
  toString angle ++ ".0"

/-- A style in words. -/
def Style.describe : Style → String
  | .weight value => "FontWeight(FontWeight(" ++ toString value ++ "))"
  | .foreground (.solid color) => "Foreground(Solid(" ++ color.describe ++ "))"
  | .foreground (.gradient start stop angle) =>
    "Foreground(" ++ describeParts "LinearGradient"
      [("from", start.describe), ("to", stop.describe), ("angle", describeAngle angle)] ++ ")"

/-- A colour as data. -/
def Color.toData (c : Color) : Data :=
  .record (c.channels.map fun (channel, value) => (channel, .integer value))

/-- A style as data. -/
def Style.toData : Style → Data
  | .weight value => .record [("FontWeight", .integer value)]
  | .foreground (.solid color) =>
    .record [("Foreground", .record [("Solid", color.toData)])]
  | .foreground (.gradient start stop angle) =>
    .record [("Foreground", .record [("LinearGradient", .record
      [("from", start.toData), ("to", stop.toData), ("angle", .real angle.toFloat)])])]

namespace Report

/-- The report on a document. -/
def ofDocument (language : Option String) (d : Document) : Report :=
  { language
    spans := d.styledRanges.map fun r =>
      ⟨r.start, r.stop, (d.text.drop r.start).take (r.stop - r.start), r.style⟩
    connectors := d.connectors }

/-- The line of a styled stretch: its offsets, its text and its style in columns. -/
def spanLine (s : ReportSpan) : String :=
  String.ofList (Text.padLeft 6 (toString s.start).toList ++ ['.', '.'] ++
    Text.padRight 6 (toString s.stop).toList ++ ' ' :: Text.padRight 16 s.text) ++
    " " ++ s.style.describe

/-- Numbers are written out in full, without a point if they are whole; ties go up. -/
def numbers : Decimal.Notation where
  tie := .up
  pointZero := false
  nan := "NaN"
  infinities := ("inf", "-inf")

/-- The line of a connector. -/
def connectorLine (c : Connector) : String :=
  let number := fun x => String.ofList (numbers.write x)
  "connector x=" ++ number c.left ++ " y=" ++ number c.top ++ " height=" ++ number c.height

/-- The report as lines. -/
def lines (r : Report) : List String :=
  ("language: " ++ r.language.getD "plain text") ::
    r.spans.map spanLine ++ r.connectors.map connectorLine

/-- A styled stretch as data. -/
def spanData (s : ReportSpan) : Data :=
  .record [("start", .integer s.start), ("end", .integer s.stop),
    ("text", .text (String.ofList s.text)), ("style", s.style.toData)]

/-- A connector as data. -/
def connectorData (c : Connector) : Data :=
  .record [("left", .real c.left), ("top", .real c.top), ("height", .real c.height)]

/-- The report as data. -/
def toData (r : Report) : Data :=
  .record [
    ("language", match r.language with
      | some name => .text name
      | none => .null),
    ("spans", .list (r.spans.map spanData)),
    ("connectors", .list (r.connectors.map connectorData))]

/-- The lines that are shown of a report, in either form. -/
def present (r : Report) (json : Bool) : List String :=
  if json then [String.ofList (Json.print r.toData)] else r.lines

end Report

end Highlight
