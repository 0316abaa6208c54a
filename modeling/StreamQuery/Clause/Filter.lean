import StreamQuery.Clause.Basic
import StreamQuery.Scalar

/-!
# Row filters

The body of a WHERE clause. A truth value in the place of a condition is compared with `true`, and
its negation with `false`; a comparison with null becomes a null test, membership in a collection an
IN list, and a comparison of records a conjunction.

An expression is written as a value, as a condition, or as the negation of a condition.
-/

namespace StreamQuery

/-- The place an expression is written for. -/
inductive Place where
  /-- An operand of a comparison or of a function. -/
  | value
  | condition
  | negated
deriving DecidableEq, Inhabited

/-- Negates a condition that has no shorter negation. -/
def Place.wrap (place : Place) (text : String) : String :=
  match place with
  | .negated => "NOT (" ++ text ++ ")"
  | _ => text

/-- True for a truth value that can be null. -/
def DataType.isNullableBool (type : DataType) : Bool :=
  type.isNullable && type.isBool

/-- The members of two records compared one by one. -/
def compositeText (write : String → String → String)
    (left right : List (Except Fault String)) : Except Fault String :=
  if left.length != right.length then .error .compositeSizes
  else do
    let pairs ← (left.zip right).mapM fun (l, r) => do return write (← l) (← r)
    match pairs with
    | [pair] => return pair
    | pairs => return "(" ++ Text.joined " AND " pairs ++ ")"

namespace Filter

/-- The column of a member, behind the alias of its parameter. -/
def columnText (aliases : AliasTable) (m : Member) : String :=
  qualified (aliases.ofMember? m) m.name

/-- Member accesses inside calls. -/
def memberText (aliases : AliasTable) : MemberText := fun m _ => .ok (columnText aliases m)

/-- A member access, with the text of what it is read from. `Value` of a nullable truth value stands
for the truth value, and `HasValue` tests for null. A column in the place of a condition is compared
with `true` unless it can be null; under a negation it is compared with `false`. -/
def accessText (aliases : AliasTable) (place : Place) (m : Member) (target : Except Fault String) :
    Except Fault String :=
  let column := columnText aliases m
  if m.name == "Value" && m.target.type.isNullableBool then do
    return "(" ++ (← target) ++ (if place == .negated then " = false)" else " = true)")
  else if m.type.isBool && place == .negated then .ok ("(" ++ column ++ " = false)")
  else if m.name == "HasValue" && m.target.type.isNullable then do
    return place.wrap ((← target) ++ " IS NOT NULL")
  else if place == .condition && m.type.isBool && !m.type.isNullable then
    .ok ("(" ++ column ++ " = true)")
  else .ok (place.wrap column)

/-- The collection and the value of a membership test, by their places in the call. -/
def membership? (c : CallTexts) : Option (Except Fault String × Except Fault String) :=
  if c.method.name != "Contains" then none
  else match c.method.binding, c.receiver, c.receiverText, c.args, c.argTexts with
  | .onInstance, some collection, some collectionText, [_], [valueText] =>
    if collection.type.isCollection then some (collectionText, valueText) else none
  | .onInstance, _, _, _, _ => none
  | _, none, _, [collection, _], [collectionText, valueText] =>
    if collection.type.isCollection then some (collectionText, valueText) else none
  | _, _, _, _, _ => none

/-- The dialect form of the three tests on text. -/
def textTest? (method target value : String) : Option String :=
  if method == "Contains" then some ("INSTR(" ++ target ++ ", " ++ value ++ ") > 0")
  else if method == "StartsWith" then some ("STARTS_WITH(" ++ target ++ ", " ++ value ++ ")")
  else if method == "EndsWith" then some ("ENDS_WITH(" ++ target ++ ", " ++ value ++ ")")
  else none

/-- A call that is no membership test. A method with one argument on a text is tried as a test on
text; its operands are written first, so an error in them comes before one of the call itself. -/
def plainCallText (d : Dialect) (aliases : AliasTable) (c : CallTexts) : Except Fault String :=
  let scalar := Expr.scalarCall d (memberText aliases) c.method c.receiver c.args
  match c.method.binding, c.receiver, c.receiverText, c.argTexts with
  | .onInstance, some receiver, some receiverText, [argText] =>
    if receiver.type.isString then do
      let target ← receiverText
      let value ← argText
      match textTest? c.method.name target value with
      | some text => return text
      | none => scalar
    else scalar
  | _, _, _, _ => scalar

/-- A call, with its receiver and arguments written as values. -/
def callText (d : Dialect) (aliases : AliasTable) (place : Place) (c : CallTexts) :
    Except Fault String :=
  match membership? c with
  | some (collection, value) => do
    let value ← value
    let collection ← collection
    return value ++ (if place == .negated then " NOT IN (" else " IN (") ++ collection ++ ")"
  | none => do return place.wrap (← plainCallText d aliases c)

/-- A binary operation other than a null test or a composite comparison. -/
def operationText (op : BinaryOp) (left right : Except Fault String) : Except Fault String := do
  let l ← left
  let r ← right
  return op.text l r

/-- The place of the operands of an operation. -/
def operandPlace (op : BinaryOp) : Place :=
  if op.isLogical then .condition else .value

/-- The null test that an operation with a null constant becomes. -/
def nullTest? : BinaryOp → Option String
  | .equal => some " IS NULL"
  | .notEqual => some " IS NOT NULL"
  | _ => none

end Filter

namespace Expr

mutual

/-- The text of an expression in a row filter. -/
def filterText (d : Dialect) (aliases : AliasTable) (place : Place) : Expr → Except Fault String
  | .binary op left right =>
    match Filter.nullTest? op, right.isNull, left.isNull with
    | some test, true, _ => do
      return place.wrap ((← filterText d aliases .value left) ++ test)
    | some test, false, true => do
      return place.wrap ((← filterText d aliases .value right) ++ test)
    | _, _, _ =>
      match op == .equal, compositeTexts? d aliases left, compositeTexts? d aliases right with
      | true, some l, some r => do
        return place.wrap (← compositeText (fun a b => a ++ " = " ++ b) l r)
      | _, _, _ => do
        return place.wrap (← Filter.operationText op
          (filterText d aliases (Filter.operandPlace op) left)
          (filterText d aliases (Filter.operandPlace op) right))
  | .unary .not operand _ => do return place.wrap (← filterText d aliases .negated operand)
  | .unary .convert operand _ => filterText d aliases place operand
  | .unary .negate operand _ => do
    return place.wrap ("-" ++ (← filterText d aliases .value operand))
  | .member target name type isKey =>
    Filter.accessText aliases place ⟨target, name, type, isKey⟩ (filterText d aliases .value target)
  | .call method receiver args =>
    Filter.callText d aliases place
      ⟨method, receiver, args, filterText? d aliases receiver, filterTexts d aliases args⟩
  | .cond test ifTrue ifFalse => do
    let t ← filterText d aliases .condition test
    let a ← filterText d aliases .value ifTrue
    let b ← filterText d aliases .value ifFalse
    return place.wrap (caseText t a b)
  | .const value => .ok (place.wrap value.sql)
  | .lambda _ body =>
    match place with
    | .negated => do return "NOT (" ++ (← filterText d aliases .condition body) ++ ")"
    | _ => filterText d aliases place body
  | .param p => .ok (place.wrap p.name)
  | .record _ _ => .error .recordInFilter

/-- The texts of the members of a record, under conversions; none for any other expression. -/
def compositeTexts? (d : Dialect) (aliases : AliasTable) :
    Expr → Option (List (Except Fault String))
  | .record _ members => some (filterMembers d aliases members)
  | .unary .convert operand _ => compositeTexts? d aliases operand
  | _ => none

/-- The text of a receiver as a value. -/
def filterText? (d : Dialect) (aliases : AliasTable) :
    Option Expr → Option (Except Fault String)
  | none => none
  | some e => some (filterText d aliases .value e)

/-- The texts of arguments as values. -/
def filterTexts (d : Dialect) (aliases : AliasTable) : List Expr → List (Except Fault String)
  | [] => []
  | e :: rest => filterText d aliases .value e :: filterTexts d aliases rest

/-- The texts of record members as values. -/
def filterMembers (d : Dialect) (aliases : AliasTable) :
    List (String × Expr) → List (Except Fault String)
  | [] => []
  | (_, e) :: rest => filterText d aliases .value e :: filterMembers d aliases rest

end

/-- A conversion is written as what it converts, in every place. -/
theorem filterText_convert (d : Dialect) (aliases : AliasTable) (place : Place) (e : Expr)
    (type : DataType) :
    (Expr.unary .convert e type).filterText d aliases place = e.filterText d aliases place := by
  rw [filterText]

end Expr

/-- The body of the WHERE clause of a predicate. -/
def Lambda.filterBody (predicate : Lambda) (d : Dialect) (aliases : AliasTable) :
    Except Fault String := do
  predicate.body.checkSize
  if predicate.body.hasAggregate then throw .aggregateInFilter
  nonEmpty .filter (← predicate.body.filterText d aliases .condition)

end StreamQuery
