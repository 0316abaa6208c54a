import StreamQuery.Scalar

/-!
# Styles

Grouping keys, group filters and output columns are written along the same lines, with calls left to
the scalar writer. A style holds what differs: how members, calls, parameters and binary operations
are written, and the fault of a record in the place of a value.
-/

namespace StreamQuery

/-- How a clause writes its expressions. -/
structure Style where
  member : Member → Except Fault String
  call : Method → Option Expr → List Expr → Except Fault String
  param : Param → String := Param.name
  binary : BinaryOp → String → String → String
  record : Fault

/-- The operator as grouped clauses spell it: an inequality is `<>`. -/
def BinaryOp.groupedSymbol : BinaryOp → String
  | .notEqual => "<>"
  | op => op.symbol

/-- A binary operation of a grouped clause without brackets; a coalescence is a call. -/
def BinaryOp.bareText (op : BinaryOp) (left right : String) : String :=
  match op with
  | .coalesce => op.text left right
  | _ => left ++ " " ++ op.groupedSymbol ++ " " ++ right

/-- A binary operation of a grouped clause in brackets; a coalescence is a call. -/
def BinaryOp.groupedText (op : BinaryOp) (left right : String) : String :=
  match op with
  | .coalesce => op.text left right
  | _ => "(" ++ op.bareText left right ++ ")"

/-- The text of an expression in a style. -/
def Expr.styled (style : Style) : Expr → Except Fault String
  | .param p => .ok (style.param p)
  | .member target name type isKey => style.member ⟨target, name, type, isKey⟩
  | .const value => .ok value.sql
  | .call method receiver args => style.call method receiver args
  | .lambda _ body => styled style body
  | .unary op operand _ => do return op.text (← styled style operand)
  | .binary op left right => do
    let l ← styled style left
    let r ← styled style right
    return style.binary op l r
  | .cond test ifTrue ifFalse => do
    let t ← styled style test
    let a ← styled style ifTrue
    let b ← styled style ifFalse
    return caseText t a b
  | .record _ _ => .error style.record

end StreamQuery
