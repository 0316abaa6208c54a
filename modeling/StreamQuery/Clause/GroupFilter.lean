import StreamQuery.Clause.Basic
import StreamQuery.Clause.Style

/-!
# Group filters

The body of a HAVING clause. Aggregates are written over the bare column that their selector reads.
-/

namespace StreamQuery

namespace GroupFilter

/-- The dialect name of an aggregate method. -/
def aggregateName (method : String) : String :=
  if method == "LatestByOffset" then "LATEST_BY_OFFSET"
  else if method == "EarliestByOffset" then "EARLIEST_BY_OFFSET"
  else if method == "CollectList" then "COLLECT_LIST"
  else if method == "CollectSet" then "COLLECT_SET"
  else if method == "Average" then "AVG"
  else if method == "CountDistinct" then "COUNT_DISTINCT"
  else Text.upper method

/-- The body of a selector. -/
def selectorBody? : Expr → Option Expr
  | .lambda _ body => some body
  | _ => none

/-- An aggregate call over a column. -/
def aggregateCall (method column : String) : String :=
  aggregateName method ++ "(" ++ column ++ ")"

/-- An aggregate: over the column of its first selector, or without one over the first column among
its receiver and arguments. A count has no selector. -/
def aggregateText (method : Method) (receiver : Option Expr) (args : List Expr) :
    Except Fault String :=
  if method.name == "Count" then
    if args.length ≤ 1 then .ok "COUNT(*)" else .error .conditionalCount
  else match args.findSome? selectorBody? with
  | some body =>
    match body.unwrap.member? with
    | some m => .ok (aggregateCall method.name m.name)
    | none => .error .selectorNotColumn
  | none =>
    let column := (receiver.toList ++ args).findSome? fun e => e.unwrap.member?.map Member.name
    .ok (aggregateCall method.name (column.getD "*"))

/-- Columns inside calls: behind the alias of their parameter, unless it stands for a group. -/
def memberText (aliases : AliasTable) : MemberText := fun m _ =>
  let aliasName := (m.root?.filter fun p => !p.type.isGrouping).bind fun p => aliases.alias? p.name
  .ok (qualified aliasName m.name)

/-- A call. -/
def callText (d : Dialect) (aliases : AliasTable) (method : Method) (receiver : Option Expr)
    (args : List Expr) : Except Fault String :=
  if Function.isAggregate method.name then aggregateText method receiver args
  else Expr.scalarCall d (memberText aliases) method receiver args

/-- The style of a group filter: columns have no alias outside calls. -/
def style (d : Dialect) (aliases : AliasTable) : Style where
  member m := .ok m.name
  call := callText d aliases
  binary := BinaryOp.groupedText
  record := .recordInHaving

end GroupFilter

/-- The body of the HAVING clause of a predicate. -/
def Lambda.havingBody (predicate : Lambda) (d : Dialect) (aliases : AliasTable) :
    Except Fault String := do
  predicate.body.checkSize
  predicate.body.checkNesting
  nonEmpty .having (← predicate.body.styled (GroupFilter.style d aliases))

end StreamQuery
