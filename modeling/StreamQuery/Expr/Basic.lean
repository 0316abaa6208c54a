import StreamQuery.Constant

/-!
# Query expressions

The clauses of a query are lambdas over its sources, given as expression trees. `nodes` lists a tree
parents first, and questions about any node of a tree are asked of that list.
-/

namespace StreamQuery

/-- A lambda parameter. -/
structure Param where
  name : String
  type : DataType
deriving DecidableEq, Inhabited

/-- How a method is bound to the value it is called on. -/
inductive Binding where
  /-- Called on a receiver, which counts as the first argument. -/
  | onInstance
  | onType
  /-- An extension method: the first argument is the value extended and does not count. -/
  | extending
deriving DecidableEq, Inhabited

/-- A method as a call names it. -/
structure Method where
  name : String
  binding : Binding
  returns : DataType
  /-- The declaring type of a method called on a type. -/
  owner : Option String
deriving DecidableEq, Inhabited

/-- Unary operators. -/
inductive UnaryOp where
  | not
  | negate
  /-- A conversion, which leaves no trace in the dialect. -/
  | convert
deriving DecidableEq, Inhabited

/-- Binary operators. -/
inductive BinaryOp where
  | add
  | subtract
  | multiply
  | divide
  | modulo
  | equal
  | notEqual
  | greater
  | greaterEqual
  | less
  | lessEqual
  | and
  | or
  /-- The first operand unless it is null. -/
  | coalesce
deriving DecidableEq, Inhabited

namespace BinaryOp

/-- The six comparisons. -/
def isComparison : BinaryOp → Bool
  | .equal | .notEqual | .greater | .greaterEqual | .less | .lessEqual => true
  | _ => false

/-- Conjunction and disjunction, whose operands are conditions. -/
def isLogical : BinaryOp → Bool
  | .and | .or => true
  | _ => false

/-- The operator sign of the dialect. -/
def symbol : BinaryOp → String
  | .add => "+"
  | .subtract => "-"
  | .multiply => "*"
  | .divide => "/"
  | .modulo => "%"
  | .equal => "="
  | .notEqual => "!="
  | .greater => ">"
  | .greaterEqual => ">="
  | .less => "<"
  | .lessEqual => "<="
  | .and => "AND"
  | .or => "OR"
  | .coalesce => "??"

end BinaryOp

/-- An expression tree. -/
inductive Expr where
  | param (p : Param)
  /-- A member read from a value; `isKey` marks a declared key column. -/
  | member (target : Expr) (name : String) (type : DataType) (isKey : Bool)
  | const (value : Constant)
  | call (method : Method) (receiver : Option Expr) (args : List Expr)
  /-- A nested lambda, such as the selector of an aggregate. -/
  | lambda (params : List Param) (body : Expr)
  | unary (op : UnaryOp) (operand : Expr) (type : DataType)
  | binary (op : BinaryOp) (left right : Expr)
  | cond (test ifTrue ifFalse : Expr)
  /-- A record construction, anonymous or of a named type. -/
  | record (typeName : Option String) (members : List (String × Expr))
deriving Inhabited

/-- A clause of a query: parameters and a body over them. -/
structure Lambda where
  params : List Param
  body : Expr
deriving Inhabited

/-- True when some parameter is a group of rows. -/
def Lambda.isGrouped (l : Lambda) : Bool :=
  l.params.any fun p => p.type.isGrouping

namespace Expr

/-- The static type of an expression. Comparisons and logical operations are conditions, any other
binary operation has the type of its left operand. -/
def type : Expr → DataType
  | .param p => p.type
  | .member _ _ type _ => type
  | .const value => value.type
  | .call method _ _ => method.returns
  | .lambda _ body => body.type
  | .unary _ _ type => type
  | .binary op left _ => if op.isComparison || op.isLogical then .bool else left.type
  | .cond _ ifTrue _ => ifTrue.type
  | .record typeName _ => .record (typeName.getD "<anonymous>")

/-- The expression under all conversions. -/
def unwrap : Expr → Expr
  | .unary .convert operand _ => operand.unwrap
  | e => e

/-- True for the null constant, under any conversions. -/
def isNull (e : Expr) : Bool :=
  match e.unwrap with
  | .const .null => true
  | _ => false

mutual

/-- All nodes of a tree, each before its descendants and in the order of the operands. -/
def nodes : Expr → List Expr
  | .param p => [.param p]
  | .member target name type isKey => .member target name type isKey :: target.nodes
  | .const value => [.const value]
  | .call method receiver args => .call method receiver args :: (nodesOf? receiver ++ nodesOf args)
  | .lambda params body => .lambda params body :: body.nodes
  | .unary op operand type => .unary op operand type :: operand.nodes
  | .binary op left right => .binary op left right :: (left.nodes ++ right.nodes)
  | .cond test ifTrue ifFalse =>
    .cond test ifTrue ifFalse :: (test.nodes ++ (ifTrue.nodes ++ ifFalse.nodes))
  | .record typeName members => .record typeName members :: nodesOfMembers members

/-- The nodes of a receiver. -/
def nodesOf? : Option Expr → List Expr
  | none => []
  | some e => e.nodes

/-- The nodes of a list of trees. -/
def nodesOf : List Expr → List Expr
  | [] => []
  | e :: rest => e.nodes ++ nodesOf rest

/-- The nodes of the members of a record. -/
def nodesOfMembers : List (String × Expr) → List Expr
  | [] => []
  | (_, e) :: rest => e.nodes ++ nodesOfMembers rest

end

/-- True when some node of the tree satisfies `p`. -/
def anyNode (p : Expr → Bool) (e : Expr) : Bool :=
  e.nodes.any p

mutual

/-- How deep operators, calls, lambdas, records and conditionals are nested. -/
def height : Expr → Nat
  | .param _ => 0
  | .member _ _ _ _ => 0
  | .const _ => 0
  | .call _ receiver args => max (heightOf? receiver) (heightOf args)
  | .lambda _ body => body.height + 1
  | .unary _ operand _ => operand.height + 1
  | .binary _ left right => max (left.height + 1) (right.height + 1)
  | .cond test ifTrue ifFalse =>
    max (test.height + 1) (max (ifTrue.height + 1) (ifFalse.height + 1))
  | .record _ members => heightOfMembers members

/-- One more than the height of a receiver, or zero. -/
def heightOf? : Option Expr → Nat
  | none => 0
  | some e => e.height + 1

/-- One more than the greatest height in a list, or zero. -/
def heightOf : List Expr → Nat
  | [] => 0
  | e :: rest => max (e.height + 1) (heightOf rest)

/-- One more than the greatest height of a member, or zero. -/
def heightOfMembers : List (String × Expr) → Nat
  | [] => 0
  | (_, e) :: rest => max (e.height + 1) (heightOfMembers rest)

end

/-- The parameter that a chain of member accesses starts from. -/
def root? : Expr → Option Param
  | .param p => some p
  | .member target _ _ _ => target.root?
  | _ => none

/-- The member names of a chain that starts from a parameter, outermost last. -/
def path? : Expr → Option (List String)
  | .param _ => some []
  | .member target name _ _ => target.path?.map (· ++ [name])
  | _ => none

/-- Marks a member access as a key column; other expressions stay as they are. -/
def asKey : Expr → Expr
  | .member target name type _ => .member target name type true
  | e => e

end Expr

/-- A member access. -/
structure Member where
  target : Expr
  name : String
  type : DataType
  isKey : Bool
deriving Inhabited

namespace Member

/-- The member access as an expression. -/
def toExpr (m : Member) : Expr :=
  .member m.target m.name m.type m.isKey

/-- The parameter that the chain of accesses starts from. -/
def root? (m : Member) : Option Param :=
  m.toExpr.root?

/-- The member names from the parameter to this member. -/
def path? (m : Member) : Option (List String) :=
  m.toExpr.path?

/-- True when the member is read directly from a parameter. -/
def onParam (m : Member) : Bool :=
  match m.target with
  | .param _ => true
  | _ => false

end Member

/-- The member access that an expression is. -/
def Expr.member? : Expr → Option Member
  | .member target name type isKey => some ⟨target, name, type, isKey⟩
  | _ => none

/-- The operands of a call that count as arguments: a receiver comes first for a method called on an
instance, and an extension method does not count the value it extends. -/
def Method.operands {α : Type _} (m : Method) (receiver : Option α) (args : List α) : List α :=
  match m.binding with
  | .onInstance => receiver.toList ++ args
  | .onType => args
  | .extending => args.drop 1

end StreamQuery
