import StreamQuery.Clause.Filter
import StreamQuery.Query

/-!
# Sources and joins

The FROM clause reads one source, or joins two within a time bound. The condition of a join is made
of equalities between columns and constants, joined by AND.
-/

namespace StreamQuery

/-- The aliases of the two sides of a join, with the names of the lambda's parameters. -/
structure JoinSides where
  params : List Param
  left : String
  right : String

/-- The alias of a parameter, by its first position among the parameters. -/
def JoinSides.alias? (s : JoinSides) (param : String) : Option String :=
  match s.params.findIdx? fun p => p.name == param with
  | some 0 => some s.left
  | some 1 => some s.right
  | _ => none

/-- An equality in brackets. -/
def equalText (left right : String) : String :=
  "(" ++ left ++ " = " ++ right ++ ")"

namespace Expr

mutual

/-- The text of a join condition. Unary operators are looked through, and an equality of records is
the conjunction of the equalities of their members. -/
def joinText (s : JoinSides) : Expr → Except Fault String
  | .binary .equal left right =>
    match joinMembers? s left, joinMembers? s right with
    | some l, some r => compositeText equalText l r
    | _, _ => do
      let l ← joinText s left
      let r ← joinText s right
      return equalText l r
  | .binary .and left right => do
    let l ← joinText s left
    let r ← joinText s right
    return "(" ++ l ++ " AND " ++ r ++ ")"
  | .member target name _ _ =>
    match target.root?.bind fun p => s.alias? p.name with
    | some aliasName => .ok (aliasName ++ "." ++ name)
    | none => .error (.unqualifiedJoinColumn name)
  | .unary _ operand _ => joinText s operand
  | .const value => .ok value.sql
  | _ => .error .joinShape

/-- The texts of the members of a record, under conversions; none for any other expression. -/
def joinMembers? (s : JoinSides) : Expr → Option (List (Except Fault String))
  | .record _ members => some (joinTexts s members)
  | .unary .convert operand _ => joinMembers? s operand
  | _ => none

/-- The texts of record members. -/
def joinTexts (s : JoinSides) : List (String × Expr) → List (Except Fault String)
  | [] => []
  | (_, e) :: rest => joinText s e :: joinTexts s rest

end

end Expr

/-- The text of a join condition under two aliases. -/
def Lambda.joinCondition (on : Lambda) (left right : String) : Except Fault String :=
  on.body.joinText ⟨on.params, left, right⟩

/-- The second source of a FROM clause. -/
structure JoinClause where
  right : String
  /-- The time bound in seconds. -/
  within : Nat
  condition : String
deriving DecidableEq, Inhabited

/-- The text of a join. -/
def JoinClause.sql (j : JoinClause) : String :=
  " JOIN " ++ j.right ++ " " ++ joinAlias ++ " WITHIN " ++ toString j.within ++ " SECONDS ON " ++
    j.condition

/-- A FROM clause. -/
structure FromClause where
  left : String
  /-- The primary source is written with its alias. -/
  aliased : Bool
  join : Option JoinClause := none
deriving DecidableEq, Inhabited

namespace FromClause

/-- The text of the clause. -/
def sql (f : FromClause) : String :=
  "FROM " ++ f.left ++ (if f.aliased then " " ++ primaryAlias else "") ++
    match f.join with
    | some j => j.sql
    | none => ""

/-- The sources under their aliases; the primary alias counts also where it is not written. -/
def aliases (f : FromClause) : List (String × String) :=
  (primaryAlias, f.left) :: f.join.toList.map fun j => (joinAlias, j.right)

/-- The time bound of a join: the query's own if it is positive, or the default if it is allowed. -/
def bound (q : Query) (defaultWithin : Nat) : Except Fault Nat :=
  match q.within.filter (0 < ·) with
  | some n => .ok n
  | none => if q.forbidDefaultWithin then .error .withinRequired else .ok defaultWithin

/-- The clause of a query whose sources have the given names. -/
def ofQuery (q : Query) (names : List String) (defaultWithin : Nat) (aliased : Bool) :
    Except Fault FromClause :=
  match names with
  | [] => .error .missingSource
  | [left] => .ok { left, aliased }
  | [left, right] =>
    match q.join with
    | none => .error .missingJoinCondition
    | some on => do
      let within ← bound q defaultWithin
      if !aliased then throw .missingPrimaryAlias
      let condition ← on.joinCondition primaryAlias joinAlias
      return { left, aliased, join := some { right, within, condition } }
  | names => .error (.tooManySources names.length)

end FromClause

end StreamQuery
