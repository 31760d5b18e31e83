/-! # Decimals

Decimal texts of binary floating point numbers. A number is written with the fewest digits that
still read back as the same number, and of those the nearest. Where two are equally near, and how
the digits are laid out, is the choice of the format that writes them.
-/

namespace Highlight

/-- The number `digits · 10 ^ exponent`. -/
structure Decimal where
  digits : Nat
  exponent : Int
  deriving Repr, DecidableEq

/-- What a floating point number is. -/
inductive Numeral where
  | nan
  | infinite (negative : Bool)
  | finite (negative : Bool) (size : Decimal)
  deriving Repr, DecidableEq

namespace Decimal

/-- Which of two decimals is taken that are equally near. -/
inductive Tie where
  /-- The one whose last digit is even. -/
  | toEven
  /-- The larger one. -/
  | up
  deriving Repr, DecidableEq

/-- Whether a tie goes to the smaller of two neighbours, which ends in the last digit of `below`. -/
def Tie.goesDown (tie : Tie) (below : Nat) : Bool :=
  match tie with
  | .toEven => below % 2 = 0
  | .up => false

/-- The decimal digits of a number, without leading zeros; a single zero for zero. -/
def digitChars (n : Nat) : List Char :=
  Nat.toDigits 10 n

/-- The number of digits of a decimal. -/
def width (d : Decimal) : Nat :=
  (digitChars d.digits).length

/-- The decimal without zeros at the end of its digits; `fuel` bounds how many are taken off. -/
def stripZeros : Nat → Decimal → Decimal
  | 0, d => d
  | fuel + 1, d =>
    if d.digits ≠ 0 ∧ d.digits % 10 = 0 then stripZeros fuel ⟨d.digits / 10, d.exponent + 1⟩ else d

/-- The power of ten as a numerator and a denominator. -/
def powerOfTen (e : Int) : Nat × Nat :=
  if 0 ≤ e then (Nat.pow 10 e.toNat, 1) else (1, Nat.pow 10 (-e).toNat)

/-- The exponent of the leading decimal digit of the positive fraction `num / den`. -/
def leadingExponent (num den : Nat) : Int :=
  if den ≤ num then (digitChars (num / den)).length - 1
  else
    let shift := ((List.range 400).find? fun j => den ≤ num * Nat.pow 10 (j + 1)).getD 400
    Int.negSucc shift

/-- The interval of numbers that read back as `m · 2 ^ q`, in units of `2 ^ (q - 2)`: the middle of
    the way to each neighbour. The lower neighbour of a power of two is nearer. -/
def readBack (m : Nat) (boundary : Bool) : Nat × Nat :=
  (if boundary then 4 * m - 1 else 4 * m - 2, 4 * m + 2)

/-- The decimal of `count` digits nearest to the number that reads back as it, if there is one. All
    comparisons are made in whole numbers, with `num / den` the unit of the interval. -/
def ofWidth? (tie : Tie) (m num den low high : Nat) (closed : Bool) (lead : Int) (count : Nat) :
    Option Decimal :=
  let e := lead - (count - 1 : Nat)
  let (up, down) := powerOfTen e
  -- `d · 10 ^ e` against `x · num / den`
  let side := fun (d : Nat) => d * up * den
  let value := fun (x : Nat) => x * num * down
  let inside := fun (d : Nat) =>
    if closed then value low ≤ side d && side d ≤ value high
    else value low < side d && side d < value high
  let below := value (4 * m) / (up * den)
  let above := below + 1
  let lowGap := value (4 * m) - side below
  let highGap := side above - value (4 * m)
  match inside below, inside above with
  | true, true =>
    if lowGap < highGap ∨ (lowGap = highGap ∧ tie.goesDown below) then some ⟨below, e⟩
    else some ⟨above, e⟩
  | true, false => some ⟨below, e⟩
  | false, true => some ⟨above, e⟩
  | false, false => none

/-- The shortest decimal that reads back as `m · 2 ^ q`, and of those the nearest. Seventeen digits
    always do. -/
def shortest (tie : Tie) (m : Nat) (q : Int) (boundary : Bool) : Decimal :=
  if m = 0 then ⟨0, 0⟩
  else
    let unit := q - 2
    let (num, den) :=
      if 0 ≤ unit then (Nat.pow 2 unit.toNat, 1) else (1, Nat.pow 2 (-unit).toNat)
    let (low, high) := readBack m boundary
    let lead := leadingExponent (4 * m * num) den
    let found := ((List.range 17).findSome? fun i =>
      ofWidth? tie m num den low high (m % 2 = 0) lead (i + 1)).getD ⟨0, 0⟩
    stripZeros 20 found

/-- The sign, the shortest decimal and the special values of a floating point number. -/
def ofFloat (tie : Tie) (x : Float) : Numeral :=
  let bits := x.toBits.toNat
  let negative := bits / Nat.pow 2 63 = 1
  let exponent := bits / Nat.pow 2 52 % Nat.pow 2 11
  let fraction := bits % Nat.pow 2 52
  if exponent = 2047 then
    if fraction = 0 then .infinite negative else .nan
  else if exponent = 0 then .finite negative (shortest tie fraction (-1074) false)
  else
    .finite negative
      (shortest tie (Nat.pow 2 52 + fraction) (Int.ofNat exponent - 1075)
        (fraction = 0 ∧ exponent > 1))

/-- The digits before the point and those behind it, written out in full. -/
def positional (d : Decimal) : List Char × List Char :=
  let digits := digitChars d.digits
  if 0 ≤ d.exponent then
    (if d.digits = 0 then ['0'] else digits ++ List.replicate d.exponent.toNat '0', [])
  else
    let places := (-d.exponent).toNat
    let padded := List.replicate (places + 1 - digits.length) '0' ++ digits
    (padded.take (padded.length - places), padded.drop (padded.length - places))

/-- The floating point number nearest to a decimal. -/
def toFloat (d : Decimal) : Float :=
  let magnitude := d.width + d.exponent
  if d.digits = 0 ∨ magnitude < -400 then 0
  else if magnitude > 400 then 1 / 0
  else Float.ofScientific d.digits (d.exponent < 0) d.exponent.natAbs

/-- The decimal written with these digits before and behind the point and that power of ten. -/
def ofDigits (whole fraction : List Char) (exponent : Int) : Decimal :=
  ⟨(whole ++ fraction).foldl (fun value c => value * 10 + (c.toNat - '0'.toNat)) 0,
    exponent - fraction.length⟩

end Decimal

end Highlight
