import StreamQuery.Extras
import StreamQuery.Source
import StreamQuery.Window

/-!
# Queries

A query is what the compiler reads: sources, clauses, windows and side values. It is built from a
draft and gets a number of its own; a scope is opened for one query and lets only that query be
compiled.
-/

namespace StreamQuery

/-- A query. -/
structure Query where
  /-- The number of the query; no two queries share one. -/
  id : Nat
  /-- The sources, the primary one first. -/
  sources : List Source
  join : Option Lambda
  filter : Option Lambda
  groupBy : Option Lambda
  having : Option Lambda
  projection : Option Lambda
  /-- The timeframes of tumbling windows, without repetitions. -/
  windows : List String
  hopping : Option HoppingWindow
  /-- The time bound of a join in seconds. -/
  within : Option Nat
  /-- A join must have a time bound of its own. -/
  forbidDefaultWithin : Bool
  /-- The grace period of windows in seconds. -/
  grace : Option Nat
  /-- The primary source is written with an alias. -/
  primaryAlias : Bool
  extras : Extras
deriving Inhabited

/-- A query in the making. -/
structure Query.Draft where
  sources : List Source := []
  join : Option Lambda := none
  filter : Option Lambda := none
  groupBy : Option Lambda := none
  having : Option Lambda := none
  projection : Option Lambda := none
  /-- The timeframes as given. -/
  windows : List String := []
  hopping : Option HoppingWindow := none
  within : Option Nat := none
  forbidDefaultWithin : Bool := false
  grace : Option Nat := none
  /-- Whether the primary source has an alias; by default it has one exactly in a join. -/
  primaryAlias : Option Bool := none
  extras : Extras := {}
deriving Inhabited

/-- Adds a timeframe, trimmed, unless it is blank or known. -/
def addWindow (windows : List String) (timeframe : String) : List String :=
  match Text.nonBlank timeframe with
  | none => windows
  | some t => if windows.contains t then windows else windows ++ [t]

/-- The query of a draft, under a number of its own. -/
def Query.Draft.build (d : Query.Draft) (id : Nat) : Query where
  id := id
  sources := d.sources
  join := d.join
  filter := d.filter
  groupBy := d.groupBy
  having := d.having
  projection := d.projection
  windows := d.windows.foldl addWindow []
  hopping := d.hopping
  within := d.within
  forbidDefaultWithin := d.forbidDefaultWithin
  grace := d.grace
  primaryAlias := d.primaryAlias.getD (decide (1 < d.sources.length))
  extras := d.extras

namespace Query

/-- True when the projection aggregates anywhere. -/
def hasAggregates (q : Query) : Bool :=
  q.projection.any fun projection => projection.body.hasAggregate

/-- True when the result is a table: grouped, windowed or aggregated. -/
def isAggregate (q : Query) : Bool :=
  q.groupBy.isSome || !q.windows.isEmpty || q.hopping.isSome || q.hasAggregates

end Query

/-- The permission to compile one query. -/
structure Scope where
  id : Nat
deriving DecidableEq, Inhabited

namespace Scope

/-- Opens a scope for a query. -/
def ofQuery (q : Query) : Scope := ⟨q.id⟩

/-- True when the scope was opened for the query. -/
def covers (s : Scope) (q : Query) : Bool :=
  s.id == q.id

end Scope

end StreamQuery
