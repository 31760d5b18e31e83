/-! # Structured data

The value that a data file holds, whichever format it is written in, and how records, lists and
named choices are taken out of it.
-/

namespace Highlight

/-- A structured value. -/
inductive Data where
  | null
  | flag (value : Bool)
  | integer (value : Int)
  | real (value : Float)
  | text (value : String)
  | list (items : List Data)
  /-- Named fields in the order in which they are written. -/
  | record (fields : List (String × Data))
  /-- Something well written that holds characters no text can have. -/
  | unreadable

/-- The freedoms a format leaves to whoever writes a record or a choice. -/
structure Data.Rules where
  /-- A record may be given as a list of its fields' values in order; whether such a list may be
      longer than the record has fields. -/
  surplus : Bool
  /-- What may stand behind the name of a choice that is given as a record with one field. -/
  isUnit : Data → Bool

namespace Data

/-- A text. -/
def asText? : Data → Option String
  | .text s => some s
  | _ => none

/-- A truth value. -/
def asFlag? : Data → Option Bool
  | .flag b => some b
  | _ => none

/-- A number, whole or not. -/
def asReal? : Data → Option Float
  | .real x => some x
  | .integer n => some (Float.ofInt n)
  | _ => none

/-- A whole number from zero to the largest of 64 bits. -/
def asNatural? : Data → Option Nat
  | .integer n => if 0 ≤ n ∧ n.toNat < UInt64.size then some n.toNat else none
  | _ => none

/-- A text of one character. -/
def asChar? : Data → Option Char
  | .text s => match s.toList with
    | [c] => some c
    | _ => none
  | _ => none

/-- A list, with every item read by `f`. -/
def asList? {α : Type} (f : Data → Option α) : Data → Option (List α)
  | .list items => items.mapM f
  | _ => none

/-- The values of the named fields of a record, in the order of `names`; absent ones are none. A
    record may be given as a list in that order. A field given twice is refused, other fields are
    passed over. -/
def members? (rules : Rules) (names : List String) : Data → Option (List (Option Data))
  | .record fields =>
    if names.all fun name => (fields.filter (·.1 == name)).length ≤ 1 then
      some (names.map fun name => fields.lookup name)
    else none
  | .list items =>
    if items.length ≤ names.length ∨ rules.surplus then
      some ((List.range names.length).map fun i => items[i]?)
    else none
  | _ => none

/-- The name of a choice, given as a text or as a record with that one field. -/
def choice? (rules : Rules) : Data → Option String
  | .text name => some name
  | .record [(name, value)] => if rules.isUnit value then some name else none
  | _ => none

/-- A field that has to be there. -/
def required {α : Type} (f : Data → Option α) : Option Data → Option α
  | some value => f value
  | none => none

/-- A field that falls back to a default when absent. -/
def optional {α : Type} (f : Data → Option α) (default : α) : Option Data → Option α
  | some value => f value
  | none => some default

end Data

end Highlight
