import StreamQuery.Hub.Outline
import StreamQuery.Json.Decode

/-!
# Reading from a hub

A hub is a stream of per-second rows that already hold aggregates under names such as `SUMPRICE`,
`CNT` or `LASTCLOSE`. A plan says, for each output name, which hub column its aggregate reads, and
which members are left out because they are computed later.
-/

namespace StreamQuery

/-- How one output name reads the hub. -/
structure HubRule where
  target : String
  aggregate : Option String := none
  /-- The rule applies to aggregate calls only. -/
  aggregateOnly : Bool := false
deriving DecidableEq, Inhabited

/-- Rules by output name, and the names left out. -/
structure HubPlan where
  rules : NameMap HubRule := NameMap.empty
  exclude : NameSet := NameSet.empty
deriving DecidableEq, Inhabited

namespace HubRule

/-- A rule from a JSON record; only the column is required, and a null method is none. -/
def ofJson? (j : Json) : Option HubRule := do
  match ← j.record? ["targetColumn", "aggregateFunction", "aggregateOnly"] with
  | [target, aggregate, aggregateOnly] =>
    let method : Json → Option (Option String)
      | .null => some none
      | value => value.str?.map some
    return ⟨← Json.required Json.str? target, ← Json.optional method none aggregate,
      ← Json.optional Json.bool? false aggregateOnly⟩
  | _ => none

end HubRule

namespace HubPlan

/-- A plan from a JSON record. -/
def ofJson? (j : Json) : Option HubPlan := do
  match ← j.record? ["overrides", "exclude"] with
  | [rules, exclude] =>
    return ⟨← Json.optional (Json.map? HubRule.ofJson?) NameMap.empty rules,
      ← Json.optional Json.nameSet? NameSet.empty exclude⟩
  | _ => none

/-- The rule of an output name: the first in name order that agrees up to case. -/
def rule? (p : HubPlan) (label : String) : Option HubRule :=
  (p.rules.entries.find? fun entry => Text.sameName entry.1 label).map (·.2)

/-- True when an output name is left out, ignoring case. -/
def excludes (p : HubPlan) (label : String) : Bool :=
  p.exclude.members.any fun name => Text.sameName name label

/-- Adds another plan, whose rules replace those of the same name. -/
def merge (p other : HubPlan) : HubPlan :=
  ⟨p.rules.union other.rules, p.exclude.union other.exclude⟩

/-- The start of the names of hub columns that hold an aggregate. -/
def columnStart? (method : String) : Option String :=
  let name := Text.lower method
  if name == "average" || name == "avg" || name == "sum" then some "SUM"
  else if name == "max" then some "MAX"
  else if name == "min" then some "MIN"
  else if name == "latestbyoffset" then some "LAST"
  else if name == "earliestbyoffset" then some "FIRST"
  else none

/-- The hub columns that could hold an aggregate of a column, the best one first. -/
def candidates (method : String) (selected : Option Member) : List String :=
  let leaf := match selected with
    | some m => Text.identifier m.name
    | none => ""
  (if leaf == "" then [] else (columnStart? method).toList.map (· ++ leaf)) ++
    (if Text.sameName method "Count" then ["CNT"] else [])

/-- The hub column of the first aggregate of an expression. With known columns it must be one of
them, ignoring case; without, the best candidate is taken. -/
def hubColumn? (e : Expr) (available : Option NameSet) : Option String := do
  let (method, selected) ← e.firstAggregate?
  let names := candidates method selected
  match available with
  | none => names.head?
  | some known =>
    if known.isEmpty then names.head?
    else names.find? fun name => known.members.any fun column => Text.sameName column name

/-- The name under which the raw start of a window is left out; it is restored from the key. -/
def windowStartRaw : String := "WindowStartRaw"

/-- True for the two names of the average. -/
def isAverage (method : String) : Bool :=
  Text.sameName method "Average" || Text.sameName method "Avg"

/-- Adds what a member needs. An aggregate reads the hub column of its own name, an average the
column of its sum, and a computed member that of its first aggregate; a computed member without one
is left out. -/
def addMember (available : Option NameSet) (p : HubPlan) (m : OutlineMember) : HubPlan :=
  if Text.allBlank m.label then p
  else if Text.sameName m.label windowStartRaw then { p with exclude := p.exclude.insert m.label }
  else match m.role with
  | .aggregate =>
    let column := if m.aggregate.any isAverage then hubColumn? m.expr available else none
    let target := column.getD (Text.identifier m.label)
    { p with rules := p.rules.insert m.label ⟨target, m.aggregate, false⟩ }
  | .computed =>
    if m.expr.hasAggregate then
      let target := ((hubColumn? m.expr available).or (m.column.filter (· != ""))).getD
        (Text.identifier m.label)
      { p with rules := p.rules.insert m.label ⟨target, some (m.aggregate.getD "AVG"), false⟩ }
    else { p with exclude := p.exclude.insert m.label }
  | .key | .value => p

/-- The plan of a projection, with the columns of the hub if they are known. -/
def ofOutline (o : Outline) (available : Option NameSet) : HubPlan :=
  o.members.foldl (addMember available) {}

end HubPlan

end StreamQuery
