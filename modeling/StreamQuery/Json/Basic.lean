import StreamQuery.Double.Basic
import StreamQuery.NameMap

/-!
# JSON values

An integer that fits 64 bits stays an integer; a number written with a fraction or an exponent is a
double. A document can hold well-formed parts without a value: a number beyond the doubles, or a
string whose escapes spell no text. Such a part is `unreadable`; it may stand where nothing reads
it.
-/

namespace StreamQuery

/-- A number of a document. -/
inductive JsonNumber where
  /-- An integer of 64 bits, signed or unsigned. -/
  | int (value : Int)
  /-- Any other number. -/
  | double (value : Double)
deriving DecidableEq, Inhabited

/-- A JSON value. -/
inductive Json where
  | null
  | bool (value : Bool)
  | num (value : JsonNumber)
  | str (value : String)
  | arr (items : List Json)
  /-- An object, with its fields as written. -/
  | obj (fields : List (String × Json))
  /-- A well-formed part without a value. -/
  | unreadable
deriving Inhabited

namespace Json

mutual

/-- The value with the fields of every object in name order, the last of repeated fields kept. -/
def canonical : Json → Json
  | .arr items => .arr (canonicalItems items)
  | .obj fields => .obj (NameMap.ofList (canonicalFields fields)).entries
  | value => value

/-- The canonical forms of the items of an array. -/
def canonicalItems : List Json → List Json
  | [] => []
  | item :: rest => item.canonical :: canonicalItems rest

/-- The fields of an object with canonical values. -/
def canonicalFields : List (String × Json) → List (String × Json)
  | [] => []
  | (name, value) :: rest => (name, value.canonical) :: canonicalFields rest

end

/-- Equality of numbers: an integer never equals a double. -/
def sameNumber : JsonNumber → JsonNumber → Bool
  | .int a, .int b => a == b
  | .double a, .double b => a.sameValue b
  | _, _ => false

mutual

/-- Equality of canonical values. -/
def same : Json → Json → Bool
  | .null, .null => true
  | .bool a, .bool b => a == b
  | .num a, .num b => sameNumber a b
  | .str a, .str b => a == b
  | .arr a, .arr b => sameItems a b
  | .obj a, .obj b => sameFields a b
  | _, _ => false

/-- Equality of the items of two arrays. -/
def sameItems : List Json → List Json → Bool
  | [], [] => true
  | a :: as, b :: bs => a.same b && sameItems as bs
  | _, _ => false

/-- Equality of the fields of two objects in canonical order. -/
def sameFields : List (String × Json) → List (String × Json) → Bool
  | [], [] => true
  | (n, a) :: as, (m, b) :: bs => n == m && a.same b && sameFields as bs
  | _, _ => false

end

/-- The text of a string value. -/
def str? : Json → Option String
  | .str s => some s
  | _ => none

/-- The truth value of a boolean. -/
def bool? : Json → Option Bool
  | .bool b => some b
  | _ => none

/-- A number written as a non-negative integer below `2 ^ bits`, for at most 64 bits. -/
def nat? (bits : Nat) : Json → Option Nat
  | .num (.int i) => if 0 ≤ i && i < Nat.pow 2 bits then some i.toNat else none
  | _ => none

/-- The items of an array. -/
def arr? : Json → Option (List Json)
  | .arr items => some items
  | _ => none

/-- The fields of an object. -/
def obj? : Json → Option (List (String × Json))
  | .obj fields => some fields
  | _ => none

end Json

end StreamQuery
