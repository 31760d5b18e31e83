import Highlight.Decimal

/-! # Number notations

How a format lays out the digits of a number: which numbers get an exponent, what stands behind the
point of a whole number, and the texts of the values that are no numbers.
-/

namespace Highlight.Decimal

/-- The choices of a format that writes floating point numbers. -/
structure Notation where
  tie : Tie
  /-- The most places before the point and the most zeros right behind it; a number with more of
      either gets an exponent. None means that every number is written out in full. -/
  plain : Option (Nat × Nat) := none
  /-- Whether a whole number keeps a zero behind its point. -/
  pointZero : Bool := true
  nan : String
  /-- The text of infinity and of negative infinity. -/
  infinities : String × String

/-- Whether a decimal is written without an exponent. -/
def Notation.isPlain (n : Notation) (d : Decimal) : Bool :=
  match n.plain with
  | none => true
  | some (places, zeros) =>
    let point := d.exponent + d.width
    d.digits = 0 || (-(zeros : Int) ≤ point && point ≤ places)

/-- A decimal written out in full. -/
def Notation.inFull (n : Notation) (d : Decimal) : List Char :=
  match d.positional with
  | (whole, []) => whole ++ if n.pointZero then ['.', '0'] else []
  | (whole, fraction) => whole ++ '.' :: fraction

/-- A decimal with one digit before the point and an exponent, which always has a sign. -/
def withExponent (d : Decimal) : List Char :=
  let mantissa := match digitChars d.digits with
    | first :: second :: rest => first :: '.' :: second :: rest
    | digits => digits
  let exponent := d.exponent + d.width - 1
  mantissa ++ 'e' :: (if exponent < 0 then '-' else '+') :: digitChars exponent.natAbs

/-- The text of a floating point number. -/
def Notation.write (n : Notation) (x : Float) : List Char :=
  match ofFloat n.tie x with
  | .nan => n.nan.toList
  | .infinite negative => (if negative then n.infinities.2 else n.infinities.1).toList
  | .finite negative d =>
    (if negative then ['-'] else []) ++ if n.isPlain d then n.inFull d else withExponent d

end Highlight.Decimal
