import Highlight.Style
import Highlight.Text.Blank
import Highlight.Text.Cut

/-! # Style descriptors

Styles are written as short texts: `solid(R,G,B)` and `solid(R,G,B,A)` for one colour,
`lingrad((R,G,B),(R,G,B))` for a gradient, and a name from `Thin` to `UltraBlack` for a font
weight. A table of converters, looked up by the name of the property, reads them.
-/

namespace Highlight

/-- Why a style descriptor is refused. -/
inductive DescriptorError where
  /-- The text is no colour; it is given without its outer blanks. -/
  | malformedColor (text : String)
  /-- The text names no font weight. -/
  | unknownWeight (text : String)
  /-- No converter reads the property. -/
  | unknownProperty (name : String)
  /-- A converter refused for a reason of its own. -/
  | rejected (reason : String)
  deriving Repr, DecidableEq

/-- The wording of a refusal. -/
def DescriptorError.message : DescriptorError → String
  | .malformedColor text => "Malformed color descriptor: " ++ text
  | .unknownWeight text => "Unknown font weight: " ++ text
  | .unknownProperty name => "Unknown style property: " ++ name
  | .rejected reason => reason

namespace Descriptor

open Text

/-- Whether a character is a decimal digit of the ASCII range. -/
def isDigit (c : Char) : Bool :=
  '0' ≤ c && c ≤ '9'

/-- The value of a row of decimal digits. -/
def digitsValue (digits : List Char) : Nat :=
  digits.foldl (fun value c => value * 10 + (c.toNat - '0'.toNat)) 0

/-- A colour channel: one or more digits after an optional plus sign, of value at most 255. -/
def channel? (text : List Char) : Option Nat :=
  let digits := match text with
    | '+' :: rest => rest
    | _ => text
  if digits ≠ [] ∧ digits.all isDigit ∧ digitsValue digits ≤ 255 then some (digitsValue digits)
  else none

/-- Channels separated by commas, each with blanks around it. -/
def channels? (text : List Char) : Option (List Nat) :=
  (splitOn ',' text).mapM fun piece => channel? (trim piece)

/-- An opaque colour as exactly three channels. -/
def rgb? (text : List Char) : Option Color :=
  match channels? text with
  | some [r, g, b] => some ⟨r, g, b, 255⟩
  | _ => none

/-- A colour as three channels, or as four with the alpha channel last. -/
def rgba? (text : List Char) : Option Color :=
  match channels? text with
  | some [r, g, b] => some ⟨r, g, b, 255⟩
  | some [r, g, b, a] => some ⟨r, g, b, a⟩
  | _ => none

/-- What stands between the parentheses of `name(…)`; the name is matched in any ASCII case. -/
def arguments? (name text : List Char) : Option (List Char) :=
  if (text.take name.length).map Char.toLower = name then
    (dropFirst? '(' (trimStart (text.drop name.length))).bind (dropLast? ')')
  else none

/-- The insides of two parenthesised texts separated by a comma. -/
def tuples? (text : List Char) : Option (List Char × List Char) := do
  let (first, rest) ← splitAtFirst? ')' (← dropFirst? '(' (trim text))
  let second ← dropFirst? ',' (trimStart rest)
  let second ← dropLast? ')' (← dropFirst? '(' (trim second))
  return (first, second)

/-- The gradient between two parenthesised colours. -/
def gradient? (text : List Char) : Option Brush := do
  let (first, second) ← tuples? text
  return .gradient (← rgb? first) (← rgb? second) Brush.defaultAngle

/-- The brush that a text without outer blanks describes. A text that starts like one form is not
    tried as the other. -/
def brush? (text : List Char) : Option Brush :=
  match arguments? "solid".toList text with
  | some inside => (rgba? inside).map .solid
  | none => (arguments? "lingrad".toList text).bind gradient?

/-- The names of the font weights, in lower case. -/
def weights : List (String × Nat) :=
  [("thin", 100), ("extralight", 200), ("ultralight", 200), ("light", 300), ("normal", 400),
    ("regular", 400), ("medium", 500), ("demibold", 600), ("semibold", 600), ("bold", 700),
    ("extrabold", 800), ("ultrabold", 800), ("black", 900), ("heavy", 900), ("extrablack", 950),
    ("ultrablack", 950)]

end Descriptor

/-- Read a brush descriptor. -/
def Brush.parse (text : String) : Except DescriptorError Brush :=
  let inner := Text.trim text.toList
  match Descriptor.brush? inner with
  | some brush => .ok brush
  | none => .error (.malformedColor (String.ofList inner))

/-- Read the name of a font weight, in any ASCII case and with blanks around it. -/
def parseWeight (text : String) : Except DescriptorError Nat :=
  let name := String.ofList ((Text.trim text.toList).map Char.toLower)
  match Descriptor.weights.lookup name with
  | some value => .ok value
  | none => .error (.unknownWeight text)

/-- Reads the descriptor of one property. -/
abbrev Converter := String → Except DescriptorError Style

/-- Reads a brush as a foreground style. -/
def Converter.foreground : Converter :=
  fun text => (Brush.parse text).map .foreground

/-- Reads a weight name as a weight style. -/
def Converter.weight : Converter :=
  fun text => (parseWeight text).map .weight

/-- The converters by property name; the first entry of a name counts. -/
abbrev Converters := List (String × Converter)

namespace Converters

/-- The converters every language can rely on. -/
def standard : Converters :=
  [("Foreground", .foreground), ("ForegroundProperty", .foreground), ("FontWeight", .weight),
    ("FontWeightProperty", .weight)]

/-- Register a converter; it takes the place of an earlier one of that name. -/
def register (name : String) (convert : Converter) (table : Converters) : Converters :=
  (name, convert) :: table

/-- Read the descriptor of the named property. -/
def convert (table : Converters) (name text : String) : Except DescriptorError Style :=
  match table.lookup name with
  | some convert => convert text
  | none => .error (.unknownProperty name)

end Converters

end Highlight
