import StreamQuery.Clause.Basic
import StreamQuery.Clause.Style

/-!
# Grouping keys

The body of a GROUP BY clause. A record gives one key for each member, with the members of nested
records in their place. A key can call only the methods that the catalog allows in keys, and a
constant is no key.
-/

namespace StreamQuery

namespace GroupKeys

/-- A column: its name, or for a key column its identifier behind the alias of its parameter. -/
def columnText (aliases : AliasTable) (m : Member) : String :=
  if m.isKey then qualified (aliases.ofMember? m) (Text.identifier m.name) else m.name

/-- Columns inside calls. -/
def memberText (aliases : AliasTable) : MemberText := fun m _ => .ok (columnText aliases m)

/-- The style of a key: operations have no brackets. -/
def style (d : Dialect) (aliases : AliasTable) : Style where
  member m := .ok (columnText aliases m)
  call := Expr.scalarCall d (memberText aliases)
  binary := BinaryOp.bareText
  record := .recordInKey

/-- True when the catalog allows a method in keys. -/
def allowed (d : Dialect) (method : Method) : Bool :=
  (d.catalog.get? method.name).any fun rule => rule.inGroupBy

/-- The key of a member of a key record that is no record itself. -/
def memberKey (d : Dialect) (aliases : AliasTable) (e : Expr) : Except Fault String :=
  match e.unwrap with
  | .call method _ _ =>
    if allowed d method then e.styled (style d aliases)
    else .error (.keyFunctionUnsupported method.name)
  | .const _ => .error .constantKey
  | _ => e.styled (style d aliases)

mutual

/-- The keys of a member of a key record. -/
def ofMember (d : Dialect) (aliases : AliasTable) : Expr → Except Fault (List String)
  | .record _ members => ofMembers d aliases members
  | .unary .convert operand _ => ofMember d aliases operand
  | e => do return [← memberKey d aliases e]

/-- The keys of the members of a record, in order. -/
def ofMembers (d : Dialect) (aliases : AliasTable) :
    List (String × Expr) → Except Fault (List String)
  | [] => .ok []
  | (_, e) :: rest => do
    let keys ← ofMember d aliases e
    return keys ++ (← ofMembers d aliases rest)

end

/-- The keys of a key expression. -/
def ofExpr (d : Dialect) (aliases : AliasTable) (e : Expr) : Except Fault (List String) :=
  match e.unwrap with
  | .record _ members => ofMembers d aliases members
  | .call method receiver args =>
    if allowed d method then do
      return [← (Expr.call method receiver args).styled (style d aliases)]
    else .error (.keyFunctionNotAllowed method.name)
  | .const _ => .error .constantKey
  | other => do return [← other.styled (style d aliases)]

end GroupKeys

/-- The keys of a key selector. -/
def Lambda.groupKeys (selector : Lambda) (d : Dialect) (aliases : AliasTable) (limit : Nat) :
    Except Fault (List String) := do
  selector.body.checkSize
  if selector.body.hasAggregate then throw .aggregateInKeys
  let keys ← GroupKeys.ofExpr d aliases selector.body
  if limit < keys.length then throw (.tooManyKeys limit keys.length)
  if keys.isEmpty then throw .noKeys
  return keys

/-- The body of the GROUP BY clause of a key selector. -/
def Lambda.groupBody (selector : Lambda) (d : Dialect) (aliases : AliasTable) (limit : Nat) :
    Except Fault String := do
  nonEmpty .groupBy (Text.joined ", " (← selector.groupKeys d aliases limit))

end StreamQuery
