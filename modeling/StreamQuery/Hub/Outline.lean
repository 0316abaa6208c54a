import StreamQuery.Expr.Basic
import StreamQuery.Function.Catalog
import StreamQuery.Text.Split

/-!
# Outlines of a projection

An outline sorts the members of a projection by what they are: parts of the grouping key,
aggregates, values computed from others, and plain columns. A projection that is no record has one
member, named `value`.
-/

namespace StreamQuery

/-- What a member of a projection is. -/
inductive MemberRole where
  /-- Part of the grouping key. -/
  | key
  | aggregate
  /-- Computed from other values. -/
  | computed
  | value
deriving DecidableEq, Inhabited

/-- One member of a projection. -/
structure OutlineMember where
  /-- The output name. -/
  label : String
  expr : Expr
  role : MemberRole
  /-- The column that the member resolves to. -/
  column : Option String := none
  /-- The method of an aggregate. -/
  aggregate : Option String := none
  /-- The path of the column that the member or its aggregate reads. -/
  path : Option String := none
  type : DataType := .unknown
deriving Inhabited

/-- The outline of a projection. -/
structure Outline where
  members : List OutlineMember
  /-- The projection reads a per-second rows stream. -/
  hubInput : Bool
deriving Inhabited

namespace Expr

/-- True when some node is an aggregate call. -/
def hasAggregate (e : Expr) : Bool :=
  e.anyNode fun
    | .call method _ _ => Function.isAggregate method.name
    | _ => false

/-- The column of an aggregate selector: the member that its lambda is, under conversions. -/
def selectedMember? : Expr → Option Member
  | .lambda _ body => body.unwrap.member?
  | _ => none

/-- The first aggregate call of a tree, by its method and the column that its selector reads. -/
def firstAggregate? (e : Expr) : Option (String × Option Member) :=
  e.nodes.findSome? fun
    | .call method _ args =>
      if Function.isAggregate method.name then some (method.name, args.findSome? selectedMember?)
      else none
    | _ => none

end Expr

/-- The path of a member in identifier spelling, joined by dots, if it is read from a parameter. -/
def Member.dottedPath? (m : Member) : Option String :=
  (m.path?.map fun path => Text.joined "." (path.map Text.identifier)).filter (· != "")

namespace Outline

/-- The role of a member, its column, its aggregate and its path. -/
structure Reading where
  role : MemberRole
  column : Option String
  aggregate : Option String := none
  path : Option String := none

/-- Reads a member access. The path starts with `KEY` when the member is the grouping key or a part
of it; a part of the key resolves to its last name. -/
def readMember (label : String) (m : Member) : Reading :=
  match m.dottedPath? with
  | none => ⟨.value, some (Text.identifier label), none, none⟩
  | some path =>
    if path == "KEY" then ⟨.key, some (Text.identifier label), none, none⟩
    else if "KEY.".toList.isPrefixOf path.toList then
      let rest := path.toList.drop 4
      ⟨.key, some (String.ofList (Text.afterLast ['.'] rest)), none, some (String.ofList rest)⟩
    else ⟨.value, some path, none, some path⟩

/-- Reads an expression; unary operators and lambdas are looked through. -/
def read (label : String) : Expr → Reading
  | .call method _ args =>
    if Function.isAggregate method.name then
      ⟨.aggregate, some (Text.identifier label), some method.name,
        (args.findSome? Expr.selectedMember?).bind Member.dottedPath?⟩
    else ⟨.computed, some (Text.identifier label), none, none⟩
  | .member target name type isKey => readMember label ⟨target, name, type, isKey⟩
  | .param _ => ⟨.value, some (Text.identifier label), none, none⟩
  | .unary _ operand _ => read label operand
  | .lambda _ body => read label body
  | _ => ⟨.computed, some (Text.identifier label), none, none⟩

/-- The member of an output name and expression. -/
def memberOf (label : String) (e : Expr) : OutlineMember :=
  let reading := read label e.unwrap
  { label, expr := e, role := reading.role, column := reading.column,
    aggregate := reading.aggregate, path := reading.path, type := e.unwrap.type }

/-- The outline of a projection. -/
def ofProjection (projection : Lambda) (hubInput : Bool) : Outline :=
  let members := match projection.body with
    | .record _ members => members.map fun (label, e) => memberOf label e
    | body => [memberOf "value" body]
  ⟨members, hubInput⟩

/-- The first member of a name, ignoring case. -/
def member? (o : Outline) (label : String) : Option OutlineMember :=
  o.members.find? fun m => Text.sameName m.label label

end Outline

/-- The projection as it reads a hub: in a named record over a group, the member `BucketStart`,
ignoring case, becomes the start of the window. Other projections stay as they are. -/
def Lambda.forHub (projection : Lambda) : Lambda :=
  match projection.params, projection.body with
  | g :: _, .record (some typeName) members =>
    if g.type.isGrouping then
      { projection with
        body := .record (some typeName) (members.map fun (name, e) =>
          if Text.sameName name "BucketStart" then
            (name, .call ⟨"WindowStart", .extending, .dateTime, none⟩ none [.param g])
          else (name, e)) }
    else projection
  | _, _ => projection

end StreamQuery
