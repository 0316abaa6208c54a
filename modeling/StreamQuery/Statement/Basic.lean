import StreamQuery.Sink

/-!
# Statements

The clauses of a statement and their order in the text.
-/

namespace StreamQuery

/-- The clauses of a statement. -/
structure Clauses where
  /-- The FROM clause, with its keyword. -/
  source : String
  select : String
  filter : Option String := none
  groupBy : Option String := none
  having : Option String := none
deriving DecidableEq, Inhabited

namespace Clauses

/-- A clause on a line of its own. -/
def line (keyword : String) : Option String → String
  | some body => "\n" ++ keyword ++ " " ++ body
  | none => ""

/-- The clauses from SELECT to the end of the statement. -/
def sql (c : Clauses) : String :=
  "SELECT " ++ c.select ++ "\n" ++ c.source ++ line "WHERE" c.filter ++ line "GROUP BY" c.groupBy ++
    line "HAVING" c.having ++ "\nEMIT CHANGES;"

end Clauses

/-- A statement that creates a stream or a table. -/
structure CreateStatement where
  name : String
  kind : ObjectKind
  sink : SinkProperties
  clauses : Clauses
deriving DecidableEq, Inhabited

/-- The text of the statement. -/
def CreateStatement.sql (s : CreateStatement) : String :=
  "CREATE " ++ s.kind.keyword ++ " IF NOT EXISTS " ++ s.name ++ " " ++ s.sink.sql ++ " AS\n" ++
    s.clauses.sql

/-- A statement that inserts into an existing stream. -/
structure InsertStatement where
  name : String
  clauses : Clauses
deriving DecidableEq, Inhabited

/-- The text of the statement. -/
def InsertStatement.sql (s : InsertStatement) : String :=
  "INSERT INTO " ++ s.name ++ " " ++ s.clauses.sql

end StreamQuery
