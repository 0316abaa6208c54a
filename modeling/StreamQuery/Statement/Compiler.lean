import StreamQuery.Clause.Columns
import StreamQuery.Clause.From
import StreamQuery.Clause.GroupFilter
import StreamQuery.Clause.GroupKeys
import StreamQuery.Statement.Target

/-!
# Compilers

A compiler is a catalog with settings. Compiling does not change the query; what it derives from the
projection is kept in a memo beside the query, whose cells are filled once and never change after
that.
-/

namespace StreamQuery

/-- What statements are compiled with. -/
structure Compiler where
  catalog : Catalog := Catalog.builtin
  settings : Settings := {}
deriving Inhabited

/-- The dialect of a compiler. -/
def Compiler.dialect (c : Compiler) : Dialect :=
  ⟨c.catalog, c.settings.decimal⟩

/-- What has been derived from the projection of a query so far. -/
structure Memo where
  outline : Option Outline := none
  /-- The plan for reading a hub. -/
  hubPlan : Option HubPlan := none
deriving Inhabited

namespace Memo

/-- The memo of a query that comes with an outline, or without one. -/
def start (outline : Option Outline) : Memo :=
  { outline }

/-- The outline, which is filled in if it is missing. -/
def withOutline (m : Memo) (outline : Outline) : Outline × Memo :=
  match m.outline with
  | some known => (known, m)
  | none => (outline, { m with outline := some outline })

/-- The plan, which is filled in if it is missing. -/
def withPlan (m : Memo) (plan : HubPlan) : HubPlan × Memo :=
  match m.hubPlan with
  | some known => (known, m)
  | none => (plan, { m with hubPlan := some plan })

/-- The outline, if it is that of a hub projection. -/
def hubOutline? (m : Memo) : Option Outline :=
  m.outline.filter fun o => o.hubInput

end Memo

/-- A compilation: a result, and the memo afterwards, which is kept on failure too. -/
abbrev Compilation (α : Type) := Except Fault α × Memo

/-- How the output columns of a statement are chosen. -/
inductive Selection where
  /-- The columns are converted to a result type. -/
  | typed (result : ResultType)
  /-- The columns read a hub by a plan. -/
  | hub (plan : HubPlan)
  /-- Some names are left out. -/
  | plain (exclude : NameSet)
deriving Inhabited

namespace Compiler

/-- Checks that a scope was opened for the query. -/
def checkScope (scope : Scope) (q : Query) : Except Fault Unit :=
  if scope.covers q then .ok () else .error .foreignScope

/-- The selection of a query. A result type leaves the side values out of account. A hub projection
has the caller's plan on top of the derived one; other queries have it alone. -/
def selection (q : Query) (options : RenderOptions) (memo : Memo) : Compilation Selection :=
  match options.resultType with
  | some result => (.ok (.typed result), memo)
  | none =>
    match q.extras.callerPlan with
    | .error e => (.error e, memo)
    | .ok caller =>
      match memo.hubOutline? with
      | some outline =>
        match q.extras.hubColumns with
        | .error e => (.error e, memo)
        | .ok available =>
          let (plan, memo) := memo.withPlan (HubPlan.ofOutline outline available)
          (.ok (.hub (plan.merge caller)), memo)
      | none =>
        if (q.extras.get? Extras.rulesKey).isSome then (.ok (.hub caller), memo)
        else (.ok (.plain caller.exclude), memo)

/-- The aliases of the parameters of a projection or a grouping key. -/
def sourceAliases (q : Query) (params : List Param) (aliased : Bool) : AliasTable :=
  AliasTable.forSources params q.sources.length aliased

/-- The alias that hub columns are read through; empty if the primary source has none. -/
def hubAlias (aliases : AliasTable) : String :=
  if aliases.hasAlias primaryAlias then primaryAlias else ""

/-- What the output columns depend on. -/
def columnContext (c : Compiler) (aliases : AliasTable) (groupBy : Option String)
    (selection : Selection) : ColumnContext :=
  let base : ColumnContext :=
    { dialect := c.dialect, aliases, groupKeys := groupBy.filter fun keys => !Text.allBlank keys }
  match selection with
  | .typed result => { base with types := result.columnTypes c.settings.decimal }
  | .hub plan => { base with hub := some ⟨plan, hubAlias aliases⟩ }
  | .plain exclude => { base with exclude }

/-- True when the selection makes the alias of the primary source stay in the SELECT list. -/
def keepsAlias (aliases : AliasTable) : Selection → Bool
  | .hub _ => hubAlias aliases != ""
  | _ => false

/-- The body of the GROUP BY clause. -/
def groupBy (c : Compiler) (q : Query) (aliased : Bool) : Except Fault (Option String) :=
  q.groupBy.mapM fun key =>
    key.groupBody c.dialect (sourceAliases q key.params aliased) c.settings.maxGroupKeys

/-- The body of the WHERE clause. -/
def filter (c : Compiler) (q : Query) (aliased : Bool) : Except Fault (Option String) :=
  q.filter.mapM fun predicate =>
    predicate.filterBody c.dialect (AliasTable.forFilter predicate.params aliased)

/-- The body of the HAVING clause. -/
def having (c : Compiler) (q : Query) : Except Fault (Option String) :=
  q.having.mapM fun predicate => predicate.havingBody c.dialect {}

/-- The FROM clause. -/
def source (c : Compiler) (q : Query) (naming : SourceNaming) (aliased : Bool) :
    Except Fault FromClause :=
  FromClause.ofQuery q (q.sources.map naming) c.settings.withinSeconds aliased

end Compiler

end StreamQuery
