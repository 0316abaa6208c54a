import StreamQuery.DataType
import StreamQuery.Fault
import StreamQuery.Settings.Basic

/-!
# Argument types

Some dialect functions take arguments of certain classes only, and conversions need the dialect type
of a host type.
-/

namespace StreamQuery

/-- Coarse classes of types. -/
inductive TypeClass where
  /-- Integers of 16 and 32 bits. -/
  | int
  /-- Integers of 64 bits. -/
  | bigInt
  /-- Floating point numbers. -/
  | double
  | decimal
  | string
  | boolean
  | dateTime
  /-- Composite values, identifiers and bytes. -/
  | composite
  | unknown
deriving DecidableEq, Inhabited

namespace DataType

/-- The class of a type. -/
def typeClass (type : DataType) : TypeClass :=
  match type.underlying with
  | .int | .short => .int
  | .long => .bigInt
  | .double | .float => .double
  | .decimal => .decimal
  | .string | .char => .string
  | .bool => .boolean
  | .dateTime | .dateTimeOffset => .dateTime
  | .guid | .bytes | .list _ | .grouping _ _ | .record _ => .composite
  | .unknown | .nullable _ => .unknown

/-- The dialect type of a host type. -/
def sqlType (type : DataType) (decimal : DecimalSettings) : Except Fault String :=
  match type.underlying with
  | .int | .short => .ok "INTEGER"
  | .long => .ok "BIGINT"
  | .double | .float => .ok "DOUBLE"
  | .decimal => .ok decimal.size.sqlType
  | .string | .char | .guid => .ok "VARCHAR"
  | .bool => .ok "BOOLEAN"
  | .dateTime | .dateTimeOffset => .ok "TIMESTAMP"
  | .bytes => .ok "BYTES"
  | other => .error (.unsupportedType other.hostName)

end DataType

namespace Function

/-- The classes of numbers. -/
def numericClasses : List TypeClass := [.int, .bigInt, .double, .decimal]

/-- The classes with an order. -/
def orderedClasses : List TypeClass := numericClasses ++ [.string, .boolean, .dateTime]

/-- The classes that a dialect function takes; `none` if its arguments are not checked. -/
def allowedClasses (function : String) : Option (List TypeClass) :=
  let name := Text.upper function
  if name == "SUM" || name == "AVG" then some numericClasses
  else if name == "MIN" || name == "MAX" || name == "TOPK" then some orderedClasses
  else if name == "COUNT" || name == "COLLECT_LIST" then some (orderedClasses ++ [.composite])
  else if name == "LOWER" || name == "UPPER" || name == "LEN" then some [.string]
  else none

/-- Checks the types of all arguments; the first one of a wrong class is reported. -/
def checkArguments (function : String) (types : List DataType) : Except Fault Unit :=
  match allowedClasses function with
  | none => .ok ()
  | some allowed =>
    match types.find? fun type => !allowed.contains type.typeClass with
    | some type => .error (.argumentType function type.hostName)
    | none => .ok ()

end Function

end StreamQuery
