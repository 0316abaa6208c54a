import StreamQuery.Source

/-!
# Result types

The record that a statement produces. Its decimal members are converted to their declared size, or
to the size that the settings give them.
-/

namespace StreamQuery

/-- The shape of an output record. -/
structure ResultType where
  name : String
  /-- The members, in declaration order. -/
  members : List (String × DataType) := []
  /-- Sizes declared on single members. -/
  declared : List (String × DecimalSize) := []
deriving DecidableEq, Inhabited

/-- The type of one output column, with the size it has as a decimal. -/
structure ColumnType where
  type : DataType
  size : DecimalSize
deriving DecidableEq, Inhabited

namespace ResultType

/-- The result type with the columns of a source. -/
def ofSource (s : Source) : ResultType where
  name := s.typeName
  members := s.columns.map fun c => (c.name, c.type)
  declared := s.columns.filterMap fun c => c.decimal.map fun size => (c.name, size)

/-- The size of a member: the declared one, or that of the settings. -/
def sizeOf (r : ResultType) (decimal : DecimalSettings) (member : String) : DecimalSize :=
  match r.declared.find? fun entry => entry.1 == member with
  | some entry => entry.2
  | none => decimal.resolve r.name member

/-- The types of all members. -/
def columnTypes (r : ResultType) (decimal : DecimalSettings) : List (String × ColumnType) :=
  r.members.map fun (member, type) => (member, ⟨type, r.sizeOf decimal member⟩)

end ResultType

/-- A decimal column is converted to its declared size unless it is a conversion already. -/
def ColumnType.apply (t : ColumnType) (column : String) : String :=
  if t.type.underlying == .decimal && !"CAST(".toList.isPrefixOf column.toList then
    "CAST(" ++ column ++ " AS " ++ t.size.sqlType ++ ")"
  else column

end StreamQuery
