import StreamQuery.Expr.Basic
import StreamQuery.Function.Argument
import StreamQuery.Function.Catalog

/-!
# Scalar expressions

Every clause writes method calls and what stands inside them in the same way; clauses differ only in
how they write a member access, which is a parameter here.  A call is written by the rule of its
method. The number of its operands is checked first, then their types; a few methods have a form of
their own. A method without rule whose name starts with `To` is a conversion.
-/

namespace StreamQuery

/-- What the texts of a dialect depend on. -/
structure Dialect where
  catalog : Catalog := Catalog.builtin
  decimal : DecimalSettings := {}
deriving Inhabited

/-- How a clause writes a member access, given the text of the expression it is read from. -/
abbrev MemberText := Member → Except Fault String → Except Fault String

/-- Writes the bare member name. -/
def MemberText.plain : MemberText := fun m _ => .ok m.name

/-- A conversion. -/
def castText (source target : String) : String :=
  "CAST(" ++ source ++ " AS " ++ target ++ ")"

/-- A choice between two values. -/
def caseText (test ifTrue ifFalse : String) : String :=
  "CASE WHEN " ++ test ++ " THEN " ++ ifTrue ++ " ELSE " ++ ifFalse ++ " END"

/-- The branches of a case form: pairs of a test and a value, and a last value that stands alone. -/
def caseBranches : List String → String
  | [] => ""
  | [last] => " ELSE " ++ last
  | test :: value :: rest => " WHEN " ++ test ++ " THEN " ++ value ++ caseBranches rest

/-- A call with the texts of its receiver and arguments. A text that is an error counts only where
the form of the call writes it. -/
structure CallTexts where
  method : Method
  receiver : Option Expr
  args : List Expr
  receiverText : Option (Except Fault String)
  argTexts : List (Except Fault String)

namespace CallTexts

/-- The operands of the call. -/
def operands (c : CallTexts) : List Expr :=
  c.method.operands c.receiver c.args

/-- The texts of the operands. -/
def operandTexts (c : CallTexts) : List (Except Fault String) :=
  c.method.operands c.receiverText c.argTexts

/-- The texts of all operands, or the first error among them. -/
def allTexts (c : CallTexts) : Except Fault (List String) :=
  c.operandTexts.mapM id

/-- The value that is turned into text: the receiver, or else the first operand. -/
def subject? (c : CallTexts) : Option (Expr × Except Fault String) :=
  match c.receiver, c.receiverText with
  | some e, some text => some (e, text)
  | _, _ =>
    match c.operands, c.operandTexts with
    | e :: _, text :: _ => some (e, text)
    | _, _ => none

/-- The format of a timestamp that is turned into text. -/
def timestampFormat : String := "'yyyy-MM-dd''T''HH:mm:ssXXX'"

/-- A value turned into text; dates get a fixed format. -/
def toStringText (c : CallTexts) : Except Fault String :=
  match c.subject? with
  | none => .error .nothingToConvert
  | some (e, text) => do
    let text ← text
    if e.type.isDateTime then
      return "FORMAT_TIMESTAMP(CAST(" ++ text ++ " AS TIMESTAMP), " ++ timestampFormat ++ ", 'UTC')"
    else return castText text "VARCHAR"

/-- A conversion to the type that the method returns. -/
def conversionText (d : Dialect) (c : CallTexts) : Except Fault String := do
  let target ← c.method.returns.sqlType d.decimal
  match ← c.allTexts with
  | source :: _ => return castText source target
  | [] => throw (.argumentCount c.method.name ⟨1, some 1⟩ 0)

/-- A count: of all rows, unless there is an operand that is no lambda. -/
def countText (c : CallTexts) : Except Fault String :=
  match c.operands, c.operandTexts with
  | e :: _, text :: _ =>
    match e with
    | .lambda _ _ => .ok "COUNT(*)"
    | _ => do return "COUNT(" ++ (← text) ++ ")"
  | _, _ => .ok "COUNT(*)"

/-- The forms of their own. -/
def specialText (d : Dialect) (c : CallTexts) (rule : FunctionRule) : Except Fault String :=
  if c.method.name == "ToString" then c.toStringText
  else if c.method.name == "Parse" || c.method.name == "Convert" then c.conversionText d
  else if c.method.name == "Case" then do
    return "CASE" ++ caseBranches (← c.allTexts) ++ " END"
  else if c.method.name == "Count" then c.countText
  else do rule.render (← c.allTexts)

/-- A method without rule: a conversion if its name starts with `To`, of at most one operand. -/
def unknownText (d : Dialect) (c : CallTexts) : Except Fault String :=
  if ['T', 'o'].isPrefixOf c.method.name.toList && c.operands.length ≤ 1 then do
    let source ← c.operandTexts.headD (.ok Constant.null.sql)
    return castText source (Function.suggestedType c.method.name d.decimal)
  else .error (.unsupportedFunction c.method.name (d.catalog.hint? c.method.name))

/-- The text of a call. -/
def text (d : Dialect) (c : CallTexts) : Except Fault String :=
  match d.catalog.get? c.method.name with
  | none => c.unknownText d
  | some rule =>
    if rule.accepts c.operands.length then do
      Function.checkArguments rule.function (c.operands.map Expr.type)
      if rule.special then c.specialText d rule else rule.render (← c.allTexts)
    else .error (.argumentCount c.method.name rule.argRange c.operands.length)

end CallTexts

/-- The text of a unary operation. -/
def UnaryOp.text (op : UnaryOp) (operand : String) : String :=
  match op with
  | .convert => operand
  | .not => "NOT (" ++ operand ++ ")"
  | .negate => "-" ++ operand

/-- The text of a binary operation in brackets; a coalescence is a call. -/
def BinaryOp.text (op : BinaryOp) (left right : String) : String :=
  match op with
  | .coalesce => "COALESCE(" ++ left ++ ", " ++ right ++ ")"
  | _ => "(" ++ left ++ " " ++ op.symbol ++ " " ++ right ++ ")"

namespace Expr

mutual

/-- The text of a scalar expression. -/
def scalar (d : Dialect) (member : MemberText) : Expr → Except Fault String
  | .param p => .ok p.name
  | .member target name type isKey =>
    member ⟨target, name, type, isKey⟩ (scalar d member target)
  | .const value => .ok value.sql
  | .call method receiver args =>
    (CallTexts.mk method receiver args (scalar? d member receiver) (scalars d member args)).text d
  | .lambda _ body => scalar d member body
  | .unary op operand _ => do return op.text (← scalar d member operand)
  | .binary op left right => do
    let l ← scalar d member left
    let r ← scalar d member right
    return op.text l r
  | .cond test ifTrue ifFalse => do
    let t ← scalar d member test
    let a ← scalar d member ifTrue
    let b ← scalar d member ifFalse
    return caseText t a b
  | .record _ _ => .error .recordAsScalar

/-- The text of a receiver. -/
def scalar? (d : Dialect) (member : MemberText) : Option Expr → Option (Except Fault String)
  | none => none
  | some e => some (scalar d member e)

/-- The texts of a list of expressions. -/
def scalars (d : Dialect) (member : MemberText) : List Expr → List (Except Fault String)
  | [] => []
  | e :: rest => scalar d member e :: scalars d member rest

end

/-- The text of a call whose inner expressions are scalar. -/
def scalarCall (d : Dialect) (member : MemberText) (method : Method) (receiver : Option Expr)
    (args : List Expr) : Except Fault String :=
  scalar d member (.call method receiver args)

/-- A conversion is written as what it converts. -/
theorem scalar_convert (d : Dialect) (member : MemberText) (e : Expr) (type : DataType) :
    (Expr.unary .convert e type).scalar d member = e.scalar d member := by
  rw [scalar]
  cases e.scalar d member <;> rfl

end Expr

end StreamQuery
