import StreamQuery.Double.Basic

/-!
# Shortest decimals

The text of a positive finite double is the decimal with the fewest digits that reads back as it,
the nearest one if there are several, and the larger of two that are equally near. The search tries
the grids `10 ^ k` from the coarsest down, and on each grid only the two points next to the value:
if any point of a grid reads back, one of these does.

The text is positional, without an exponent and without a fraction that is zero.
-/

namespace StreamQuery.Double

/-- The decimal `digits * 10 ^ exponent`. -/
structure Decimal where
  /-- The significant digits, as a number. -/
  digits : Nat
  /-- The power of ten of the last digit. -/
  exponent : Int
deriving DecidableEq, Inhabited

/-- The point of the grid `10 ^ k` that stands for the double, if one next to its value reads back.
All bounds are multiplied by four, so that half a gap is a whole number; the gap below a power of
two is half as wide as the gap above it. -/
def onGrid? (d : Double) (k : Int) : Option Nat :=
  let mantissa := 4 * d.significand
  let below := if d.fraction == 0 && d.exponentField != 0 then 1 else 2
  let scale := Nat.pow 2 (d.power - 2).toNat * Nat.pow 10 (-k).toNat
  let den := Nat.pow 2 (2 - d.power).toNat * Nat.pow 10 k.toNat
  let value := mantissa * scale
  let low := (mantissa - below) * scale
  let high := (mantissa + 2) * scale
  let floor := value / den
  let closed := d.significand % 2 == 0
  let down := low < floor * den || (closed && low == floor * den)
  let up := (floor + 1) * den < high || (closed && (floor + 1) * den == high)
  if down && up then some (if (2 * floor + 1) * den ≤ 2 * value then floor + 1 else floor)
  else if down then some floor
  else if up then some (floor + 1)
  else none

/-- The number of decimal digits before the point. -/
def wholeDigits (d : Double) : Nat :=
  let (num, den) := d.toRatio
  if num / den == 0 then 0 else (Nat.toDigits 10 (num / den)).length

/-- The shortest decimal of a positive finite double. Seventeen significant digits always suffice,
and the least positive double has its first digit 324 places after the point. -/
def shortest (d : Double) : Decimal :=
  let start : Int := d.wholeDigits
  ((List.range 345).findSome? fun (i : Nat) =>
    (onGrid? d (start - (i : Int))).map fun n => ⟨n, start - (i : Int)⟩).getD ⟨0, 0⟩

/-- A decimal in positional notation. -/
def Decimal.text (d : Decimal) : String :=
  let digits := Nat.toDigits 10 d.digits
  let places := (-d.exponent).toNat
  if places == 0 then String.ofList (digits ++ List.replicate d.exponent.toNat '0')
  else if places < digits.length then
    let whole := digits.length - places
    String.ofList (digits.take whole ++ '.' :: digits.drop whole)
  else String.ofList ('0' :: '.' :: List.replicate (places - digits.length) '0' ++ digits)

/-- The text of a double: shortest digits in positional notation; a zero keeps its sign. -/
def text (d : Double) : String :=
  if d.isNaN then "NaN"
  else
    let sign := if d.isNegative then "-" else ""
    if d.isSpecial then sign ++ "inf"
    else if d.isZero then sign ++ "0"
    else sign ++ d.shortest.text

end StreamQuery.Double
