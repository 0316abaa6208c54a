import StreamQuery.Statement.Basic
import StreamQuery.Statement.Compiler

/-!
# Insertions

An insertion writes the clauses as they are: its primary source always has an alias, and no edit
follows. Side values play no part.
-/

namespace StreamQuery.Compiler

/-- The insertion into a target. -/
def insertion (c : Compiler) (q : Query) (target : InsertTarget) :
    Except Fault InsertStatement := do
  let source ← c.source q target.naming true
  let groupBy ← q.groupBy.mapM fun key => key.groupBody c.dialect {} c.settings.maxGroupKeys
  let select ← match q.projection with
    | none => pure "*"
    | some projection =>
      (c.columnContext (sourceAliases q projection.params true) groupBy
        (.plain NameSet.empty)).selectBody projection
  let filter ← c.filter q true
  let having ← c.having q
  return { name := Text.trimmed target.name
           clauses := { source := source.sql, select, filter, groupBy, having } }

/-- Compiles a statement that inserts into an existing stream. -/
def insert (c : Compiler) (scope : Scope) (q : Query) (target : InsertTarget) :
    Except Fault String := do
  checkScope scope q
  requireText "target name" target.name
  return (← c.insertion q target).sql

end StreamQuery.Compiler
