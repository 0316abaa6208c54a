import StreamQuery.Edit.Alias
import StreamQuery.Statement.Basic
import StreamQuery.Statement.Compiler

/-!
# Creating streams and tables

The clauses are written one after the other, each fault stopping the compilation: FROM, GROUP BY,
SELECT, WHERE, HAVING. Then key columns become key paths, aliases are dropped, and a partition list
that changes the key of the stream is folded into the grouping keys.
-/

namespace StreamQuery

/-- What kind of window a statement gets later. -/
inductive WindowShape where
  | unwindowed
  | tumbling
  | hopping
deriving DecidableEq, Inhabited

/-- What a statement is assembled from, beside the query. -/
structure CreatePlan where
  target : CreateTarget
  projection : Option Lambda
  sink : SinkOptions
  /-- The window that is placed later. -/
  shape : WindowShape := .unwindowed
deriving Inhabited

namespace CreatePlan

/-- The partition list of a target, if it changes the key: only a single plain stream can be
partitioned anew, and a list of exactly the key columns changes nothing. -/
def partition? (p : CreatePlan) (q : Query) : Option String := do
  let partition ← (p.target.partitionBy.map Partition.tidy).filter (· != "")
  let [source] := q.sources | none
  if source.isTable || q.groupBy.isSome || p.shape != .unwindowed || !q.windows.isEmpty ||
      q.hopping.isSome || q.extras.emitsFinal then none
  else
    let requested := Partition.identifiers partition
    let sameKey := !source.keyNames.isEmpty && requested.length == source.keyNames.length &&
      requested.all source.keyNames.contains
    if sameKey then none else some partition

/-- True when the rows of the result belong to tumbling windows. -/
def isTumbling (p : CreatePlan) (q : Query) : Bool :=
  match p.shape with
  | .unwindowed => !q.windows.isEmpty && q.hopping.isNone
  | shape => shape == .tumbling

/-- The properties of the sink. Retention is for streams and tumbling windows only. -/
def sinkProperties (p : CreatePlan) (q : Query) : SinkProperties :=
  let base : SinkProperties := { topic := p.target.name }
  base.withKey (q.sources.any Source.hasKeys)
    |>.withKeySchema p.target.keySchema
    |>.withValueSchema p.target.valueSchema
    |>.withCleanupPolicy p.target.cleanupPolicy
    |>.withTimestamp p.target.timestamp
    |>.withSink p.sink
    |>.withRetention (if !q.isAggregate || p.isTumbling q then p.sink.retentionMs else none)

end CreatePlan

/-- The clauses of a created statement as the clause writers leave them. -/
structure RawClauses where
  source : FromClause
  select : String
  /-- The SELECT list keeps the alias of the primary source. -/
  keepsAlias : Bool
  filter : Option String
  groupBy : Option String
  having : Option String
deriving Inhabited

namespace RawClauses

/-- The edit of every clause but SELECT and FROM: key paths, then aliases. -/
def edit (r : RawClauses) (q : Query) (keyPath : KeyPathStyle) (body : String) : String :=
  AliasScope.dropFromClause (r.source.scopes q.sources)
    (styleKeys (KeyBinding.ofQuery q keyPath) body)

/-- The FROM clause after its edit. -/
def sourceText (r : RawClauses) (q : Query) (keyPath : KeyPathStyle) : String :=
  styleKeys (KeyBinding.ofQuery q keyPath) r.source.sql

/-- The SELECT list after its edits. -/
def selectText (r : RawClauses) (q : Query) (keyPath : KeyPathStyle) : String :=
  AliasScope.dropFromSelect (r.source.scopes q.sources) (q.primaryAlias || r.keepsAlias)
    (styleKeys (KeyBinding.ofQuery q keyPath) r.select)

/-- The grouping keys after their edit, with a partition list folded in. -/
def grouping (r : RawClauses) (q : Query) (keyPath : KeyPathStyle) (partition : Option String) :
    Option String × Bool :=
  let groupBy := r.groupBy.map (r.edit q keyPath)
  match partition.map (r.edit q keyPath) with
  | some partition => Partition.mergeInto groupBy (Partition.dedup partition)
  | none => (groupBy, false)

end RawClauses

namespace CreatePlan

/-- The statement of edited clauses: a table if the query aggregates or is partitioned anew. -/
def statement (p : CreatePlan) (q : Query) (r : RawClauses) : CreateStatement :=
  let keyPath := p.target.options.keyPath
  let (groupBy, merged) := r.grouping q keyPath (p.partition? q)
  { name := p.target.name
    kind := if q.isAggregate || merged then .table else .stream
    sink := p.sinkProperties q
    clauses :=
      { source := r.sourceText q keyPath
        select := r.selectText q keyPath
        filter := r.filter.map (r.edit q keyPath)
        groupBy
        having := r.having.map (r.edit q keyPath) } }

end CreatePlan

namespace Compiler

/-- The body of the SELECT clause, and whether it keeps the alias of the primary source. Without a
projection it selects everything. -/
def select (c : Compiler) (q : Query) (p : CreatePlan) (groupBy : Option String) (memo : Memo) :
    Compilation (String × Bool) :=
  match p.projection with
  | none => (.ok ("*", false), memo)
  | some projection =>
    let aliases := sourceAliases q projection.params q.primaryAlias
    let (selection, memo) := selection q p.target.options memo
    (do
      let selection ← selection
      let body ← (c.columnContext aliases groupBy selection).selectBody projection
      return (body, keepsAlias aliases selection), memo)

/-- The clauses of a statement, before their edits. -/
def rawClauses (c : Compiler) (q : Query) (p : CreatePlan) (memo : Memo) : Compilation RawClauses :=
  match c.source q p.target.naming q.primaryAlias with
  | .error e => (.error e, memo)
  | .ok source =>
    match c.groupBy q q.primaryAlias with
    | .error e => (.error e, memo)
    | .ok groupBy =>
      let (select, memo) := c.select q p groupBy memo
      (do
        let (select, keepsAlias) ← select
        let filter ← c.filter q q.primaryAlias
        let having ← c.having q
        return { source, select, keepsAlias, filter, groupBy, having }, memo)

/-- Assembles a statement. -/
def assemble (c : Compiler) (q : Query) (p : CreatePlan) (memo : Memo) :
    Compilation CreateStatement :=
  let (raw, memo) := c.rawClauses q p memo
  (raw.map (p.statement q), memo)

/-- Checks the scope and the name of a target. -/
def checkTarget (scope : Scope) (q : Query) (name : String) : Except Fault Unit := do
  checkScope scope q
  requireText "name" name

/-- The plan of a plain target. -/
def createPlan (q : Query) (target : CreateTarget) : CreatePlan where
  target := target
  projection := q.projection
  sink := SinkOptions.ofExtras q.extras

/-- Compiles a statement that creates a stream or a table. -/
def create (c : Compiler) (scope : Scope) (q : Query) (target : CreateTarget) (memo : Memo) :
    Compilation String :=
  match checkTarget scope q target.name with
  | .error e => (.error e, memo)
  | .ok () =>
    let (statement, memo) := c.assemble q (createPlan q target) memo
    (statement.map CreateStatement.sql, memo)

end Compiler

end StreamQuery
