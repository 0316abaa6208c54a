/-!
# Doubles

A double is its 64 bits: a sign, eleven bits of exponent and 52 bits of fraction. `ofRatio` rounds a
non-negative fraction to the nearest double, an exact half to the even significand, in exact
arithmetic on natural numbers.
-/

namespace StreamQuery

/-- A double, by its bits. -/
structure Double where
  /-- Sign, exponent and fraction, from the highest bit down. -/
  bits : UInt64
deriving DecidableEq, Inhabited

namespace Double

/-- The exponent field. -/
def exponentField (d : Double) : Nat :=
  d.bits.toNat / Nat.pow 2 52 % Nat.pow 2 11

/-- The fraction field. -/
def fraction (d : Double) : Nat :=
  d.bits.toNat % Nat.pow 2 52

/-- True when the sign bit is set. -/
def isNegative (d : Double) : Bool :=
  d.bits.toNat / Nat.pow 2 63 == 1

/-- True for infinities and values that are not a number. -/
def isSpecial (d : Double) : Bool :=
  d.exponentField == 0x7FF

/-- True for values that are not a number. -/
def isNaN (d : Double) : Bool :=
  d.isSpecial && d.fraction != 0

/-- True for both zeros. -/
def isZero (d : Double) : Bool :=
  d.bits.toNat % Nat.pow 2 63 == 0

/-- The integer significand of a finite double. -/
def significand (d : Double) : Nat :=
  if d.exponentField == 0 then d.fraction else d.fraction + Nat.pow 2 52

/-- The power of two that scales the significand. -/
def power (d : Double) : Int :=
  if d.exponentField == 0 then -1074 else (d.exponentField : Int) - 1075

/-- The absolute value of a finite double as a fraction. -/
def toRatio (d : Double) : Nat × Nat :=
  (d.significand * Nat.pow 2 d.power.toNat, Nat.pow 2 (-d.power).toNat)

/-- The double nearest to `num / den` for a positive denominator, or infinity. -/
def ofRatio (num den : Nat) : Double :=
  if num == 0 then ⟨0⟩
  else
    let low : Int := max ((Nat.log2 num : Int) - Nat.log2 den - 53) (-1074)
    let quotient (p : Int) : Nat := num * Nat.pow 2 (-p).toNat / (den * Nat.pow 2 p.toNat)
    let p : Int := if quotient low < Nat.pow 2 53 then low else low + 1
    let q := quotient p
    let rest := 2 * (num * Nat.pow 2 (-p).toNat - q * (den * Nat.pow 2 p.toNat))
    let unit := den * Nat.pow 2 p.toNat
    let rounded := if unit < rest || (unit == rest && q % 2 == 1) then q + 1 else q
    let code := (p + 1074).toNat * Nat.pow 2 52 + rounded
    ⟨(min code (0x7FF * Nat.pow 2 52)).toUInt64⟩

/-- The opposite sign. -/
def negate (d : Double) : Double :=
  ⟨d.bits ^^^ 0x8000000000000000⟩

/-- Equality of values: both zeros are equal, and what is not a number equals nothing. -/
def sameValue (a b : Double) : Bool :=
  !a.isNaN && !b.isNaN && (a.bits == b.bits || (a.isZero && b.isZero))

end Double

end StreamQuery
