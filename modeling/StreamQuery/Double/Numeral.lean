import StreamQuery.Double.Basic

/-!
# Decimal numerals as doubles

The leading digits of a numeral are gathered as long as they fit 64 bits, and the result is scaled
once by a power of ten, which is itself rounded to a double. A numeral beyond the range has no
value.
-/

namespace StreamQuery.Double

/-- Digits gathered so far, and the power of ten that scales them. -/
structure Gathered where
  /-- The gathered digits, below `2 ^ 64`. -/
  digits : Nat
  exponent : Int

/-- Gathers digits before the point; from the first that does not fit on, each only scales. -/
def Gathered.whole (g : Gathered) : List Nat → Gathered
  | [] => g
  | n :: rest =>
    if g.digits * 10 + n < Nat.pow 2 64 then
      Gathered.whole { g with digits := g.digits * 10 + n } rest
    else { g with exponent := g.exponent + 1 + rest.length }

/-- Gathers digits after the point; from the first that does not fit on, they are ignored. -/
def Gathered.fraction (g : Gathered) : List Nat → Gathered
  | [] => g
  | n :: rest =>
    if g.digits * 10 + n < Nat.pow 2 64 then
      Gathered.fraction ⟨g.digits * 10 + n, g.exponent - 1⟩ rest
    else g

/-- The double nearest to a power of ten. -/
def powerOfTen (n : Nat) : Double :=
  ofRatio (Nat.pow 10 n) 1

/-- The rounded product of two finite values. -/
def times (a b : Double) : Double :=
  ofRatio (a.toRatio.1 * b.toRatio.1) (a.toRatio.2 * b.toRatio.2)

/-- The rounded quotient of two finite values, the second of them not zero. -/
def quotient (a b : Double) : Double :=
  ofRatio (a.toRatio.1 * b.toRatio.2) (a.toRatio.2 * b.toRatio.1)

/-- Divides by powers of ten of at most 308 each; stops once the value is zero. -/
def scaleDown : (fuel : Nat) → Double → Nat → Double
  | 0, d, _ => d
  | fuel + 1, d, n =>
    if n ≤ 308 then d.quotient (powerOfTen n)
    else if d.isZero then d
    else scaleDown fuel (d.quotient (powerOfTen 308)) (n - 308)

/-- The value of gathered digits, if it is finite. -/
def Gathered.value? (g : Gathered) : Option Double :=
  let d := ofRatio g.digits 1
  if g.exponent < 0 then some (scaleDown 4 d g.exponent.natAbs)
  else if g.exponent ≤ 308 then
    let scaled := d.times (powerOfTen g.exponent.toNat)
    if scaled.isSpecial then none else some scaled
  else if d.isZero then some d
  else none

end StreamQuery.Double
