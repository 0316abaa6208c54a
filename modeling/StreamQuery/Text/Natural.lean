/-!
# Reading natural numbers

A count in an option is a run of ASCII digits, with at most one plus sign in front, that fits a
given number of bits.
-/

namespace StreamQuery.Text

/-- The value of a run of ASCII digits, most significant first; `none` for any other character. -/
def digitsValue? (digits : List Char) : Option Nat :=
  digits.foldlM (fun n c => if c.isDigit then some (10 * n + (c.toNat - 48)) else none) 0

/-- Reads a number below `2 ^ bits`: ASCII digits, at least one, after an optional plus sign. -/
def natural? (bits : Nat) (s : List Char) : Option Nat :=
  let digits := match s with
    | '+' :: rest => rest
    | _ => s
  if digits.isEmpty then none
  else (digitsValue? digits).filter (· < Nat.pow 2 bits)

end StreamQuery.Text
