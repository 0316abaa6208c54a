/-!
# Data types

The static types of values. A type can be wrapped as nullable any number of times; most questions
are asked about the type underneath.
-/

namespace StreamQuery

/-- The static type of a value. -/
inductive DataType where
  | int
  | short
  | long
  | double
  | float
  | decimal
  | string
  | char
  | bool
  | dateTime
  | dateTimeOffset
  | guid
  | bytes
  | nullable (inner : DataType)
  | list (item : DataType)
  /-- The rows of one group, with their common key. -/
  | grouping (key element : DataType)
  | record (name : String)
  /-- Not known when the query is built. -/
  | unknown
deriving DecidableEq, Inhabited

namespace DataType

/-- The type under all nullable wrappers. -/
def underlying : DataType → DataType
  | .nullable inner => inner.underlying
  | type => type

/-- True for a nullable wrapper. -/
def isNullable : DataType → Bool
  | .nullable _ => true
  | _ => false

/-- Text, nullable or not. -/
def isString (type : DataType) : Bool :=
  type.underlying == .string

/-- Truth values, nullable or not. -/
def isBool (type : DataType) : Bool :=
  type.underlying == .bool

/-- Dates with time, nullable or not. -/
def isDateTime (type : DataType) : Bool :=
  type.underlying == .dateTime || type.underlying == .dateTimeOffset

/-- Groups of rows; a nullable group does not count. -/
def isGrouping : DataType → Bool
  | .grouping _ _ => true
  | _ => false

/-- Collections, nullable or not. -/
def isCollection (type : DataType) : Bool :=
  match type.underlying with
  | .list _ => true
  | _ => false

/-- Single values, nullable or not. -/
def isPrimitive (type : DataType) : Bool :=
  match type.underlying with
  | .list _ | .grouping _ _ | .record _ | .unknown => false
  | _ => true

/-- The name a type has in the host, which messages show. -/
def hostName : DataType → String
  | .int => "Int32"
  | .short => "Int16"
  | .long => "Int64"
  | .double => "Double"
  | .float => "Single"
  | .decimal => "Decimal"
  | .string => "String"
  | .char => "Char"
  | .bool => "Boolean"
  | .dateTime => "DateTime"
  | .dateTimeOffset => "DateTimeOffset"
  | .guid => "Guid"
  | .bytes => "Byte[]"
  | .nullable inner => "Nullable<" ++ inner.hostName ++ ">"
  | .list item => "List<" ++ item.hostName ++ ">"
  | .grouping key element => "Grouping<" ++ key.hostName ++ ", " ++ element.hostName ++ ">"
  | .record name => name
  | .unknown => "Object"

/-- Nothing is left to strip from an underlying type. -/
@[simp] theorem underlying_underlying (type : DataType) :
    type.underlying.underlying = type.underlying := by
  induction type with
  | nullable inner ih => exact ih
  | _ => rfl

end DataType

end StreamQuery
