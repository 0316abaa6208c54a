import StreamQuery.Clause.Basic
import StreamQuery.Clause.ResultType
import StreamQuery.Clause.Style
import StreamQuery.Hub.Plan

/-!
# Output columns

The body of a SELECT clause. A record gives one column for each member, and a repeated name gets a
number; the member that is the grouping key itself gives the columns of all keys. Aggregates over a
hub read the columns that its plan assigns to them.
-/

namespace StreamQuery

/-- A projection that reads a hub. -/
structure HubInput where
  plan : HubPlan
  /-- The alias of the hub; empty if it has none. -/
  aliasName : String := ""
deriving Inhabited

/-- What the output columns depend on beside the projection. -/
structure ColumnContext where
  dialect : Dialect := {}
  /-- The aliases of the projection's parameters. -/
  aliases : AliasTable := {}
  /-- The declared types of output columns. -/
  types : List (String × ColumnType) := []
  hub : Option HubInput := none
  exclude : NameSet := NameSet.empty
  /-- The body of the GROUP BY clause, if it is not blank. -/
  groupKeys : Option String := none
deriving Inhabited

namespace Expr

/-- True for the grouping key of a group, under conversions. -/
def isGroupKey (e : Expr) : Bool :=
  match e.unwrap with
  | .member (.param p) name _ _ => name == "Key" && p.type.isGrouping
  | _ => false

/-- True for the grouping key of a group or a member of it. -/
def isGroupKeyPart (e : Expr) : Bool :=
  e.isGroupKey ||
    match e.unwrap with
    | .member target _ _ _ => target.isGroupKey
    | _ => false

mutual

/-- True when an expression aggregates outside of lambdas and member accesses. -/
def aggregates : Expr → Bool
  | .call method receiver args =>
    Function.isAggregate method.name || aggregates? receiver || anyAggregates args
  | .unary _ operand _ => aggregates operand
  | .binary _ left right => aggregates left || aggregates right
  | .cond test ifTrue ifFalse => aggregates test || aggregates ifTrue || aggregates ifFalse
  | .record _ members => anyMemberAggregates members
  | _ => false

/-- True when a receiver aggregates. -/
def aggregates? : Option Expr → Bool
  | none => false
  | some e => aggregates e

/-- True when some expression of a list aggregates. -/
def anyAggregates : List Expr → Bool
  | [] => false
  | e :: rest => aggregates e || anyAggregates rest

/-- True when some member aggregates. -/
def anyMemberAggregates : List (String × Expr) → Bool
  | [] => false
  | (_, e) :: rest => aggregates e || anyMemberAggregates rest

end

end Expr

/-- The name at the end of a key text: the last run of ASCII letters, digits and underscores, before
a closing bracket if there is one, without leading digits; or else the key itself. -/
def keyName (key : String) : String :=
  let reversed := match key.toList.reverse with
    | ')' :: rest => rest
    | other => other
  let run := (reversed.takeWhile fun c => c.isAlphanum || c == '_').reverse
  let name := run.dropWhile Char.isDigit
  if name.isEmpty then key else String.ofList name

/-- A name with a number behind it. -/
def numbered (name : String) (n : Nat) : String :=
  name ++ "_" ++ toString n

/-- The first free name among `name`, `name_1`, `name_2`, ...; one of the first `used.length + 1`
is. -/
def freeName (used : List String) (name : String) : String :=
  if used.contains name then
    (((List.range used.length).map fun i => numbered name (i + 1)).find? fun candidate =>
      !used.contains candidate).getD name
  else name

/-- The output columns so far, with the names that are taken. -/
structure ColumnList where
  /-- Expression texts with their names, in order. -/
  items : List (String × String) := []
  used : List String := []
deriving Inhabited

/-- Adds a column. -/
def ColumnList.add (l : ColumnList) (column name : String) : ColumnList :=
  ⟨l.items ++ [(column, name)], l.used ++ [name]⟩

/-- The text of one output column. -/
def columnItem (item : String × String) : String :=
  item.1 ++ " AS " ++ item.2

namespace ColumnContext

/-- The hub rule of an output name. -/
def rule? (c : ColumnContext) (name : Option String) : Option HubRule := do
  (← c.hub).plan.rule? (← name)

/-- True when an output name is left out, ignoring case. -/
def excludes (c : ColumnContext) (name : String) : Bool :=
  c.exclude.members.any (fun e => Text.sameName e name) ||
    c.hub.any fun hub => hub.plan.excludes name

/-- The alias that a hub rule puts in front of columns that have none. -/
def hubAlias? (c : ColumnContext) (name : Option String) : Option String :=
  if (c.rule? name).isSome then (c.hub.map HubInput.aliasName).filter (· != "") else none

/-- The texts of the grouping keys, each with the name at its end. -/
def keyColumns (c : ColumnContext) : List (String × String) :=
  (Text.columns (c.groupKeys.getD "")).map fun key => (key, keyName key)

/-- A member access in the column named `name`: the length of a text, a path into the grouping key,
or a column behind the first alias there is, of its parameter, of the hub or of the first source. -/
def memberText (c : ColumnContext) (name : Option String) : MemberText := fun m target =>
  if m.name == "Length" && m.target.type.isString then do return "LEN(" ++ (← target) ++ ")"
  else match m.root?, m.path? with
  | some p, some path =>
    let aliasName := c.aliases.alias? p.name
    let inGroup := p.type.isGrouping && path.head? == some "Key"
    if inGroup && path.length == 1 then .ok (c.groupKeys.getD "")
    else if inGroup then
      .ok (qualified aliasName (Text.joined "." (path.tail.map Text.identifier)))
    else if m.isKey then .ok (qualified aliasName (Text.identifier m.name))
    else
      let qualifier := (aliasName.or (c.hubAlias? name)).or c.aliases.first?
      .ok (qualified qualifier (Text.joined "." (path.map Text.identifier)))
  | _, _ => .error .unqualifiedColumn

/-- True when a method is an aggregate that the catalog can write. -/
def isMappedAggregate (c : ColumnContext) (method : String) : Bool :=
  (c.dialect.catalog.get? method).isSome && Function.inAggregateFamily method

/-- The target of the rule of an output name, behind the alias of the hub unless it is qualified. -/
def hubTarget? (c : ColumnContext) (name : Option String) : Option String := do
  let hub ← c.hub
  let target ← Text.nonBlank (← c.rule? name).target
  return if target.toList.contains '.' || hub.aliasName == "" then target
    else hub.aliasName ++ "." ++ target

/-- An aggregate over a hub column; an average of sums is divided by the row counts. -/
def hubAggregate (rule : FunctionRule) (method column : String) : Except Fault String :=
  if Text.sameName method "Average" || Text.sameName method "Avg" then
    let leaf := Text.afterLast ['.'] column.toList
    if "SUM".toList.isPrefixOf (leaf.map Char.toUpper) then
      .ok ("(SUM(" ++ column ++ ") / SUM(CNT))")
    else .ok ("AVG(" ++ column ++ ")")
  else rule.render [column]

/-- A call in the column named `name`. -/
def callText (c : ColumnContext) (name : Option String) (method : Method) (receiver : Option Expr)
    (args : List Expr) : Except Fault String :=
  let scalar := Expr.scalarCall c.dialect (c.memberText name) method receiver args
  match c.dialect.catalog.get? method.name, c.hubTarget? name with
  | some rule, some column =>
    if Function.inAggregateFamily method.name then hubAggregate rule method.name column else scalar
  | _, _ => scalar

/-- The style of the column named `name`: a parameter stands for all its columns. -/
def style (c : ColumnContext) (name : Option String) : Style where
  member m := c.memberText name m (m.target.scalar c.dialect (c.memberText name))
  call := c.callText name
  param := fun _ => "*"
  binary := BinaryOp.groupedText
  record := .recordInColumn

/-- A hub column under an aggregate, or the latest value if the catalog cannot write one. -/
def aggregated (c : ColumnContext) (aggregate : Option String) (target : String) : String :=
  let latest := "LATEST_BY_OFFSET(" ++ target ++ ")"
  match aggregate.bind c.dialect.catalog.get? with
  | some rule =>
    match rule.render [target] with
    | .ok text => text
    | .error _ => latest
  | none => latest

/-- The text of a member after its hub rule. A rule replaces what is neither an aggregate call nor
part of the grouping key, unless it is for aggregates only; an aggregating expression also stays if
the rule names an aggregate and the member's own column. -/
def ruled (c : ColumnContext) (name : String) (e : Expr) (text : String) : String :=
  let inner := e.unwrap
  let mapped := match inner with
    | .call method _ _ => c.isMappedAggregate method.name
    | _ => false
  if mapped || inner.isGroupKeyPart then text
  else match c.rule? (some name) with
  | none => text
  | some rule =>
    match Text.nonBlank rule.target with
    | none => text
    | some target =>
      let aggregate := rule.aggregate.bind Text.nonBlank
      if rule.aggregateOnly ||
          (inner.aggregates && Text.sameName target name && aggregate.isSome) then text
      else c.aggregated aggregate target

/-- The text of a member. -/
def columnText (c : ColumnContext) (name : String) (e : Expr) : Except Fault String := do
  return c.ruled name e (← e.styled (c.style (some name)))

/-- A column as the type declared for its name asks for it. -/
def typed (c : ColumnContext) (name column : String) : String :=
  match c.types.find? fun entry => entry.1 == name with
  | some entry => entry.2.apply column
  | none => column

/-- Adds the columns of the grouping keys whose names are neither left out nor taken. -/
def addKeys (c : ColumnContext) (l : ColumnList) : ColumnList :=
  c.keyColumns.foldl (fun l (key, name) =>
    if c.excludes name || l.used.any (fun u => Text.sameName u name) then l else l.add key name) l

/-- Adds the column of a member, unless its name is left out. -/
def addColumn (c : ColumnContext) (l : ColumnList) (name column : String) : ColumnList :=
  let label := freeName l.used name
  if c.excludes name || c.excludes label then l else l.add (c.typed label column) label

/-- Whether aggregates and plain columns have been seen so far. -/
structure Seen where
  aggregate : Bool := false
  plain : Bool := false
deriving DecidableEq, Inhabited

/-- Takes note of a member; a member of the other sort is a fault. -/
def Seen.note (s : Seen) (aggregate : Bool) : Except Fault Seen :=
  if (aggregate && s.plain) || (!aggregate && s.aggregate) then .error .mixedAggregates
  else .ok ⟨s.aggregate || aggregate, s.plain || !aggregate⟩

/-- Adds the columns of record members. Without a group, aggregates and plain columns do not mix. -/
def addMembers (c : ColumnContext) (grouped : Bool) :
    Seen → ColumnList → List (String × Expr) → Except Fault ColumnList
  | _, l, [] => .ok l
  | seen, l, (name, e) :: rest =>
    if e.isGroupKey then addMembers c grouped seen (c.addKeys l) rest
    else do
      let seen ← if grouped then pure seen else seen.note e.aggregates
      let column ← c.columnText name e
      addMembers c grouped seen (c.addColumn l name column) rest

/-- One step along the members: the columns of the keys, or the text of a member as a column. -/
theorem addMembers_cons {c : ColumnContext} {grouped : Bool} {seen : Seen} {l l' : ColumnList}
    {m : String × Expr} {rest : List (String × Expr)}
    (h : c.addMembers grouped seen l (m :: rest) = .ok l') :
    m.2.isGroupKey = true ∧ c.addMembers grouped seen (c.addKeys l) rest = .ok l' ∨
      m.2.isGroupKey = false ∧ ∃ text seen', c.columnText m.1 m.2 = .ok text ∧
        c.addMembers grouped seen' (c.addColumn l m.1 text) rest = .ok l' := by
  rw [addMembers] at h
  split at h
  · next hkey => exact .inl ⟨hkey, h⟩
  · next hkey =>
    obtain ⟨seen', h⟩ : ∃ seen', (do
        let column ← c.columnText m.1 m.2
        c.addMembers grouped seen' (c.addColumn l m.1 column) rest) = .ok l' := by
      split at h
      · exact ⟨seen, h⟩
      · obtain ⟨seen', -, h⟩ := ok_of_bind h
        exact ⟨seen', h⟩
    obtain ⟨text, htext, h⟩ := ok_of_bind h
    exact .inr ⟨Bool.eq_false_iff.2 hkey, text, seen', htext, h⟩

/-- Checks that the key members of a named record have the names of the grouping keys, in their
order and ignoring case, unless the grouping key itself is a member. -/
def checkKeyOrder (c : ColumnContext) (members : List (String × Expr)) : Except Fault Unit :=
  if c.keyColumns.isEmpty || members.any fun (_, e) => e.isGroupKey then .ok ()
  else
    let names := (members.filter fun (_, e) => e.isGroupKeyPart).map (·.1)
    let keys := c.keyColumns.map (·.2)
    if names.length == keys.length && (names.zip keys).all fun (a, b) => Text.sameName a b then
      .ok ()
    else .error .keyOrder

/-- The columns of a projection that is a record. -/
def ofRecord (c : ColumnContext) (grouped : Bool) (typeName : Option String)
    (members : List (String × Expr)) : Except Fault ColumnList := do
  if typeName.isSome then c.checkKeyOrder members
  c.addMembers grouped {} {} members

/-- The columns of a record are those of its members. -/
theorem addMembers_of_ofRecord {c : ColumnContext} {grouped : Bool} {typeName : Option String}
    {members : List (String × Expr)} {l : ColumnList}
    (h : c.ofRecord grouped typeName members = .ok l) :
    c.addMembers grouped {} {} members = .ok l := by
  unfold ofRecord at h
  split at h
  · obtain ⟨_, -, h⟩ := ok_of_bind h
    exact h
  · exact h

/-- The items of a projection: none for a parameter, and the text of any other single expression. -/
def items (c : ColumnContext) (projection : Lambda) : Except Fault (List String) :=
  match projection.body with
  | .param _ => .ok []
  | .record typeName members => do
    return (← c.ofRecord projection.isGrouped typeName members).items.map columnItem
  | body => do return [← body.styled (c.style none)]

/-- The body of the SELECT clause of a projection; without items it selects everything. -/
def selectBody (c : ColumnContext) (projection : Lambda) : Except Fault String := do
  projection.body.checkSize
  projection.body.checkNesting
  let items ← c.items projection
  nonEmpty .select (if items.isEmpty then "*" else Text.joined ", " items)

end ColumnContext

end StreamQuery
