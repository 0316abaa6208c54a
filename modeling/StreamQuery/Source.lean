import StreamQuery.DataType
import StreamQuery.Settings.Basic

/-!
# Sources

A source is a stream or a table with declared columns, some of which form its key. Its identifier in
a statement is its topic in capitals, or the name of its record type if it has no topic.
-/

namespace StreamQuery

/-- What a source is materialised as. -/
inductive SourceKind where
  | stream
  | table
deriving DecidableEq, Inhabited

/-- A spelling of a source kind that is none. -/
structure UnknownKind where
  /-- The spelling, in lower case. -/
  spelling : String
deriving DecidableEq, Inhabited

/-- The message for an unknown kind. -/
def UnknownKind.message (e : UnknownKind) : String :=
  "Unknown source kind: '" ++ e.spelling ++ "'. Valid values: stream, table"

/-- Reads a source kind, ignoring case. -/
def SourceKind.ofText (s : String) : Except UnknownKind SourceKind :=
  let spelling := Text.lower s
  if spelling == "stream" then .ok .stream
  else if spelling == "table" then .ok .table
  else .error ⟨spelling⟩

/-- A column of a source. -/
structure Column where
  name : String
  type : DataType
  /-- The position in the key, for a key column. -/
  keyOrder : Option Nat := none
  /-- The declared size of a decimal. -/
  decimal : Option DecimalSize := none
deriving DecidableEq, Inhabited

/-- A source of a query. -/
structure Source where
  /-- The name of the record type. -/
  typeName : String
  /-- The declared topic. -/
  topic : Option String := none
  kind : SourceKind := .stream
  columns : List Column := []
deriving DecidableEq, Inhabited

namespace Source

/-- Adds a column at the end. -/
def withColumn (s : Source) (column : Column) : Source :=
  { s with columns := s.columns ++ [column] }

/-- Adds a key column that follows the key columns so far. -/
def withKey (s : Source) (name : String) (type : DataType) : Source :=
  let order := s.columns.countP fun c => c.keyOrder.isSome
  s.withColumn { name, type, keyOrder := some order }

/-- True for a table. -/
def isTable (s : Source) : Bool :=
  s.kind == .table

/-- The identifier of the source: its topic in capitals unless that is blank, else its type name. -/
def name (s : Source) : String :=
  match s.topic with
  | some topic => if Text.allBlank topic then s.typeName else Text.upper topic
  | none => s.typeName

/-- The key columns in key order; columns of equal order stay in declaration order. -/
def keyColumns (s : Source) : List Column :=
  (s.columns.filter fun c => c.keyOrder.isSome).mergeSort fun a b =>
    a.keyOrder.getD 0 ≤ b.keyOrder.getD 0

/-- The names of the key columns in capitals, in key order. -/
def keyNames (s : Source) : List String :=
  s.keyColumns.map fun c => Text.upper c.name

/-- True when some column is a key column. -/
def hasKeys (s : Source) : Bool :=
  s.columns.any fun c => c.keyOrder.isSome

/-- The identifier spellings of all columns. -/
def identifiers (s : Source) : NameSet :=
  NameSet.ofList (s.columns.map fun c => Text.identifier c.name)

/-- The first column of a name, ignoring case. -/
def column? (s : Source) (name : String) : Option Column :=
  s.columns.find? fun c => Text.sameName c.name name

end Source

end StreamQuery
