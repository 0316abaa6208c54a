import StreamQuery.Proofs.QuietTexts

/-!
# The parts of a row filter

The text of a row filter is put together from the texts of parts: an expression as the filter itself
writes it, or as it is written inside a call.  `Part.parts` are the parts that stand in the text of
a part, and `Part.comparands` those behind a sign of comparison.  The parts of a part are smaller
expressions (`Part.mem_nodes`).
-/

namespace StreamQuery

open Layout List

variable {op : BinaryOp} {args : List Expr} {method : Method} {receiver : Option Expr} {x : Expr}

/-! ## Parts -/

namespace Expr

/-- The values of a record, under conversions. -/
def recordValues? : Expr → Option (List Expr)
  | .record _ members => some (members.map Prod.snd)
  | .unary .convert operand _ => recordValues? operand
  | _ => none

end Expr

namespace Filter

/-- The operand of the null test that an operation becomes, with the test. -/
def nullTested? (op : BinaryOp) (left right : Expr) : Option (Expr × String) :=
  match nullTest? op, right.isNull, left.isNull with
  | some test, true, _ => some (left, test)
  | some test, false, true => some (right, test)
  | _, _, _ => none

/-- The pairs of values that an equality of records compares. -/
def recordPairs? (op : BinaryOp) (left right : Expr) : Option (List (Expr × Expr)) :=
  match op == .equal, left.recordValues?, right.recordValues? with
  | true, some ls, some rs => some (ls.zip rs)
  | _, _, _ => none

/-- The collection and the value of a membership test. -/
def memberOperands? (method : Method) (receiver : Option Expr) (args : List Expr) :
    Option (Expr × Expr) :=
  if method.name != "Contains" then none
  else match method.binding, receiver, args with
  | .onInstance, some collection, [value] =>
    if collection.type.isCollection then some (collection, value) else none
  | .onInstance, _, _ => none
  | _, none, [collection, value] =>
    if collection.type.isCollection then some (collection, value) else none
  | _, _, _ => none

/-- The tests on text. -/
def textTests : List String :=
  ["Contains", "StartsWith", "EndsWith"]

/-- The operands of a test on text. -/
def textOperands? (method : Method) (receiver : Option Expr) (args : List Expr) :
    Option (Expr × Expr) :=
  match method.binding, receiver, args with
  | .onInstance, some target, [value] =>
    if target.type.isString && textTests.contains method.name then some (target, value) else none
  | _, _, _ => none

/-- True when a member access is written by what it is read from: the value of a nullable truth
value, or a presence test that is not negated as a column. -/
def writesTarget (place : Place) (m : Member) : Bool :=
  (m.name == "Value" && m.target.type.isNullableBool) ||
    (!(m.type.isBool && place == .negated) && m.name == "HasValue" && m.target.type.isNullable)

end Filter

/-- The operands that a rule writes. -/
def FunctionRule.writtenOperands (rule : FunctionRule) (operands : List Expr) : List Expr :=
  match rule.template with
  | some text =>
    (Template.ofChars text.toList).layout.holes.filterMap fun i : Fin 10 => operands[(i : Nat)]?
  | none => operands

/-- The operands that a count writes. -/
def Expr.countedOperands : List Expr → List Expr
  | .lambda _ _ :: _ => []
  | operands => operands.take 1

/-- The operands that a form of its own writes. -/
def Method.specialOperands (method : Method) (receiver : Option Expr) (args : List Expr) :
    List Expr :=
  let operands := method.operands receiver args
  if method.name == "ToString" then (receiver.or operands.head?).toList
  else if method.name == "Case" then operands
  else if method.name == "Count" then Expr.countedOperands operands
  else operands.take 1

/-- The operands that the text of a call holds. -/
def Method.writtenOperands (d : Dialect) (method : Method) (receiver : Option Expr)
    (args : List Expr) : List Expr :=
  match d.catalog.get? method.name with
  | none => (method.operands receiver args).take 1
  | some rule =>
    if rule.special then method.specialOperands receiver args
    else rule.writtenOperands (method.operands receiver args)

/-- Who writes an expression. -/
inductive Writer where
  | filter (place : Place)
  /-- The writer of calls and of what stands inside them. -/
  | scalar
deriving DecidableEq, Inhabited

/-- An expression that is written as a part of a filter. -/
structure Part where
  writer : Writer
  expr : Expr
deriving Inhabited

namespace Part

/-- An operand in the filter. -/
def value (e : Expr) : Part :=
  ⟨.filter .value, e⟩

/-- An expression inside a call. -/
def inner (e : Expr) : Part :=
  ⟨.scalar, e⟩

/-- The text of a part. -/
def text (d : Dialect) (aliases : AliasTable) (p : Part) : Except Fault String :=
  match p.writer with
  | .filter place => p.expr.filterText d aliases place
  | .scalar => p.expr.scalar d (Filter.memberText aliases)

/-- The characters of a part; none if it cannot be written. -/
def chars (d : Dialect) (aliases : AliasTable) (p : Part) : List Char :=
  match p.text d aliases with
  | .ok t => t.toList
  | .error _ => []

/-- The parts of a call in the filter. -/
def ofCall (d : Dialect) (method : Method) (receiver : Option Expr) (args : List Expr) :
    List Part :=
  match Filter.memberOperands? method receiver args, Filter.textOperands? method receiver args with
  | some (collection, item), _ => [value item, value collection]
  | none, some (target, item) => [value target, value item]
  | none, none => (method.writtenOperands d receiver args).map inner

/-- The parts of an operation in the filter. -/
def ofOperation (op : BinaryOp) (left right : Expr) : List Part :=
  match Filter.nullTested? op left right, Filter.recordPairs? op left right with
  | some (operand, _), _ => [value operand]
  | none, some pairs => pairs.flatMap fun pair => [value pair.1, value pair.2]
  | none, none =>
    [⟨.filter (Filter.operandPlace op), left⟩, ⟨.filter (Filter.operandPlace op), right⟩]

/-- The parts whose texts stand in the text of a part. -/
def parts (d : Dialect) (p : Part) : List Part :=
  match p.writer, p.expr with
  | .filter _, .binary op left right => ofOperation op left right
  | .filter _, .unary .not operand _ => [⟨.filter .negated, operand⟩]
  | .filter place, .unary .convert operand _ => [⟨.filter place, operand⟩]
  | .filter _, .unary .negate operand _ => [value operand]
  | .filter place, .member target name type isKey =>
    if Filter.writesTarget place ⟨target, name, type, isKey⟩ then [value target] else []
  | .filter _, .call method receiver args => ofCall d method receiver args
  | .filter _, .cond test ifTrue ifFalse =>
    [⟨.filter .condition, test⟩, value ifTrue, value ifFalse]
  | .filter .negated, .lambda _ body => [⟨.filter .condition, body⟩]
  | .filter place, .lambda _ body => [⟨.filter place, body⟩]
  | .scalar, .call method receiver args => (method.writtenOperands d receiver args).map inner
  | .scalar, .lambda _ body => [inner body]
  | .scalar, .unary _ operand _ => [inner operand]
  | .scalar, .binary _ left right => [inner left, inner right]
  | .scalar, .cond test ifTrue ifFalse => [inner test, inner ifTrue, inner ifFalse]
  | _, _ => []

end Part

/-- The comparisons whose sign ends with `=`. -/
def BinaryOp.endsWithSign : BinaryOp → Bool
  | .equal | .notEqual | .greaterEqual | .lessEqual => true
  | _ => false

lemma operandPlace_of_endsWithSign (h : op.endsWithSign) : Filter.operandPlace op = .value := by
  have hlogical : op.isLogical = false := by
    cases op with
    | and => cases h
    | or => cases h
    | _ => rfl
  rw [Filter.operandPlace, hlogical]
  rfl

namespace Part

/-- The parts that stand behind a sign of comparison in the text of a part. -/
def comparands (p : Part) : List Part :=
  match p.writer, p.expr with
  | .filter _, .binary op left right =>
    match Filter.nullTested? op left right, Filter.recordPairs? op left right with
    | some _, _ => []
    | none, some pairs => pairs.map fun pair => value pair.2
    | none, none => if op.endsWithSign then [value right] else []
  | .scalar, .binary op _ right => if op.endsWithSign then [inner right] else []
  | _, _ => []

end Part

/-! ## The nodes of parts -/

/-- A list of expressions with the nodes of each of them, next to each other. -/
def Expr.IsClosed (es : List Expr) : Prop :=
  ∀ x ∈ es, x.nodes <:+: es

namespace Expr

lemma nodes_eq_cons (e : Expr) : e.nodes = e :: e.nodes.tail := by
  cases e <;> rw [nodes, tail_cons]

lemma mem_nodes_self (e : Expr) : e ∈ e.nodes := by
  rw [nodes_eq_cons]
  exact mem_cons_self ..

lemma IsClosed.append {as bs : List Expr} (ha : IsClosed as) (hb : IsClosed bs) :
    IsClosed (as ++ bs) := by
  intro x hx
  rcases mem_append.1 hx with hx | hx
  · exact (ha x hx).trans (prefix_append as bs).isInfix
  · exact (hb x hx).trans (suffix_append as bs).isInfix

lemma IsClosed.nodes {e : Expr} (h : IsClosed e.nodes.tail) : IsClosed e.nodes := by
  intro x hx
  rw [nodes_eq_cons, mem_cons] at hx
  rcases hx with rfl | hx
  · exact infix_refl _
  · exact (h x hx).trans (tail_suffix _).isInfix

mutual

/-- The parts of parts are parts. -/
lemma isClosed_tail (e : Expr) : IsClosed e.nodes.tail := by
  match e with
  | .param _ | .const _ => exact fun x hx => absurd hx not_mem_nil
  | .member target _ _ _ => exact (isClosed_tail target).nodes
  | .call _ receiver args => exact (isClosed_nodesOf? receiver).append (isClosed_nodesOf args)
  | .lambda _ body => exact (isClosed_tail body).nodes
  | .unary _ operand _ => exact (isClosed_tail operand).nodes
  | .binary _ left right =>
    exact (isClosed_tail left).nodes.append (isClosed_tail right).nodes
  | .cond test ifTrue ifFalse =>
    exact (isClosed_tail test).nodes.append
      ((isClosed_tail ifTrue).nodes.append (isClosed_tail ifFalse).nodes)
  | .record _ members => exact isClosed_nodesOfMembers members

lemma isClosed_nodesOf? (e : Option Expr) : IsClosed (nodesOf? e) := by
  match e with
  | none => exact fun x hx => absurd hx not_mem_nil
  | some e => exact (isClosed_tail e).nodes

lemma isClosed_nodesOf (es : List Expr) : IsClosed (nodesOf es) := by
  match es with
  | [] => exact fun x hx => absurd hx not_mem_nil
  | e :: rest => exact (isClosed_tail e).nodes.append (isClosed_nodesOf rest)

lemma isClosed_nodesOfMembers (members : List (String × Expr)) :
    IsClosed (nodesOfMembers members) := by
  match members with
  | [] => exact fun x hx => absurd hx not_mem_nil
  | (_, e) :: rest => exact (isClosed_tail e).nodes.append (isClosed_nodesOfMembers rest)

end

/-- The receiver and the arguments of a call are nodes below it. -/
lemma mem_nodes_of_call {x : Expr} (h : x ∈ receiver.toList ++ args) :
    x ∈ (call method receiver args).nodes.tail := by
  have hargs : ∀ args : List Expr, x ∈ args → x ∈ nodesOf args := by
    intro args hx
    induction args with
    | nil => cases hx
    | cons e rest ih =>
      rcases mem_cons.1 hx with rfl | hx
      · exact mem_append_left _ (mem_nodes_self x)
      · exact mem_append_right _ (ih hx)
  rcases mem_append.1 h with hx | hx
  · rw [Option.mem_toList] at hx
    cases hx
    exact mem_append_left _ (mem_nodes_self x)
  · exact mem_append_right _ (hargs args hx)

/-- The members of a record are parts of it. -/
lemma mem_nodes_of_recordValues? {e x : Expr} {values : List Expr}
    (h : e.recordValues? = some values) (hx : x ∈ values) : x ∈ e.nodes := by
  cases e with
  | record typeName members =>
    cases h
    refine mem_cons_of_mem _ ?_
    induction members with
    | nil => cases hx
    | cons member rest ih =>
      rcases mem_cons.1 hx with rfl | hx
      · exact mem_append_left _ (mem_nodes_self _)
      · exact mem_append_right _ (ih hx)
  | unary op operand type =>
    cases op with
    | convert => exact mem_cons_of_mem _ (mem_nodes_of_recordValues? (e := operand) h hx)
    | not => cases h
    | negate => cases h
  | _ => cases h

end Expr

lemma Method.mem_of_operands (h : x ∈ method.operands receiver args) :
    x ∈ receiver.toList ++ args := by
  unfold operands at h
  cases hbinding : method.binding with
  | onInstance =>
    rw [hbinding] at h
    exact h
  | onType =>
    rw [hbinding] at h
    exact mem_append_right _ h
  | extending =>
    rw [hbinding] at h
    exact mem_append_right _ (mem_of_mem_drop h)

lemma Expr.mem_of_countedOperands {operands : List Expr} (h : x ∈ countedOperands operands) :
    x ∈ operands := by
  unfold countedOperands at h
  split at h
  · cases h
  · exact mem_of_mem_take h

lemma FunctionRule.mem_of_writtenOperands {rule : FunctionRule} {operands : List Expr}
    (h : x ∈ rule.writtenOperands operands) : x ∈ operands := by
  unfold writtenOperands at h
  split at h
  · obtain ⟨i, -, hi⟩ := mem_filterMap.1 h
    exact mem_of_getElem? hi
  · exact h

lemma Method.mem_of_specialOperands (h : x ∈ method.specialOperands receiver args) :
    x ∈ receiver.toList ++ args := by
  unfold specialOperands at h
  dsimp only at h
  split_ifs at h
  · rw [Option.mem_toList] at h
    cases receiver with
    | some e =>
      cases h
      exact mem_append_left _ (mem_singleton_self x)
    | none => exact mem_of_operands (mem_of_mem_head? h)
  · exact mem_of_operands h
  · exact mem_of_operands (Expr.mem_of_countedOperands h)
  · exact mem_of_operands (mem_of_mem_take h)

/-- What is written for a call are operands of it. -/
lemma Method.mem_of_writtenOperands {d : Dialect} (h : x ∈ method.writtenOperands d receiver args) :
    x ∈ receiver.toList ++ args := by
  unfold writtenOperands at h
  split at h
  · exact mem_of_operands (mem_of_mem_take h)
  · split at h
    · exact mem_of_specialOperands h
    · exact mem_of_operands (FunctionRule.mem_of_writtenOperands h)

namespace Filter

/-- A null test is that of its operation, on one of the two operands. -/
lemma nullTest?_of_nullTested? {left right operand : Expr} {test : String}
    (h : nullTested? op left right = some (operand, test)) :
    nullTest? op = some test ∧ (operand = left ∨ operand = right) := by
  unfold nullTested? at h
  split at h
  · next htest _ =>
    cases h
    exact ⟨htest, .inl rfl⟩
  · next htest _ _ =>
    cases h
    exact ⟨htest, .inr rfl⟩
  · cases h

/-- The values that an equality of records compares are nodes of its operands. -/
lemma mem_nodes_of_recordPairs? {left right : Expr} {pairs : List (Expr × Expr)}
    (h : recordPairs? op left right = some pairs) {pair : Expr × Expr} (hpair : pair ∈ pairs) :
    pair.1 ∈ left.nodes ∧ pair.2 ∈ right.nodes := by
  unfold recordPairs? at h
  split at h
  · next hleft hright =>
    cases h
    obtain ⟨hfirst, hsecond⟩ := of_mem_zip hpair
    exact ⟨Expr.mem_nodes_of_recordValues? hleft hfirst,
      Expr.mem_nodes_of_recordValues? hright hsecond⟩
  · cases h

/-- The operands of a membership test are among the receiver and the arguments. -/
lemma mem_of_memberOperands? {collection item : Expr}
    (h : memberOperands? method receiver args = some (collection, item)) :
    collection ∈ receiver.toList ++ args ∧ item ∈ receiver.toList ++ args := by
  unfold memberOperands? at h
  split at h
  · cases h
  · split at h
    · split at h
      · cases h
        simp
      · cases h
    · cases h
    · split at h
      · cases h
        simp
      · cases h
    · cases h

/-- The operands of a test on text are among the receiver and the arguments. -/
lemma mem_of_textOperands? {target item : Expr}
    (h : textOperands? method receiver args = some (target, item)) :
    target ∈ receiver.toList ++ args ∧ item ∈ receiver.toList ++ args := by
  unfold textOperands? at h
  split at h
  · split at h
    · cases h
      simp
    · cases h
  · cases h

end Filter

namespace Part

variable {d : Dialect} {p q : Part}

/-- The parts of an operation are in its operands. -/
lemma mem_nodes_of_ofOperation {left right : Expr} (h : q ∈ ofOperation op left right) :
    q.expr ∈ left.nodes ++ right.nodes := by
  unfold ofOperation at h
  split at h
  · next operand _ hnull =>
    rw [mem_singleton.1 h]
    rcases (Filter.nullTest?_of_nullTested? hnull).2 with rfl | rfl
    · exact mem_append_left _ (Expr.mem_nodes_self _)
    · exact mem_append_right _ (Expr.mem_nodes_self _)
  · next pairs _ hpairs =>
    obtain ⟨pair, hpair, hq⟩ := mem_flatMap.1 h
    obtain ⟨hleft, hright⟩ := Filter.mem_nodes_of_recordPairs? hpairs hpair
    rw [mem_cons, mem_singleton] at hq
    rcases hq with rfl | rfl
    · exact mem_append_left _ hleft
    · exact mem_append_right _ hright
  · rw [mem_cons, mem_singleton] at h
    rcases h with rfl | rfl
    · exact mem_append_left _ (Expr.mem_nodes_self _)
    · exact mem_append_right _ (Expr.mem_nodes_self _)

/-- The parts of a call are its operands. -/
lemma mem_of_ofCall (h : q ∈ ofCall d method receiver args) : q.expr ∈ receiver.toList ++ args := by
  unfold ofCall at h
  split at h
  · next hmember =>
    obtain ⟨hcollection, hitem⟩ := Filter.mem_of_memberOperands? hmember
    rw [mem_cons, mem_singleton] at h
    rcases h with rfl | rfl
    · exact hitem
    · exact hcollection
  · next htest =>
    obtain ⟨htarget, hitem⟩ := Filter.mem_of_textOperands? htest
    rw [mem_cons, mem_singleton] at h
    rcases h with rfl | rfl
    · exact htarget
    · exact hitem
  · obtain ⟨e, he, rfl⟩ := mem_map.1 h
    exact Method.mem_of_writtenOperands he

/-- The parts of a part are expressions below it. -/
theorem mem_nodes (h : q ∈ p.parts d) : q.expr ∈ p.expr.nodes.tail := by
  obtain ⟨writer, e⟩ := p
  have hone : ∀ {e : Expr} {writer : Writer}, q ∈ [⟨writer, e⟩] → q.expr ∈ e.nodes := by
    intro e writer hq
    rw [mem_singleton.1 hq]
    exact Expr.mem_nodes_self e
  cases e with
  | member target name type isKey =>
    cases writer with
    | scalar => cases h
    | filter place =>
      unfold parts at h
      dsimp only at h
      split at h
      · exact hone h
      · cases h
  | call method receiver args =>
    refine Expr.mem_nodes_of_call ?_
    cases writer with
    | filter place => exact mem_of_ofCall h
    | scalar =>
      obtain ⟨e, he, rfl⟩ := mem_map.1 h
      exact Method.mem_of_writtenOperands he
  | lambda params body =>
    cases writer with
    | scalar => exact hone h
    | filter place => cases place <;> exact hone h
  | unary op operand type =>
    cases writer with
    | scalar => exact hone h
    | filter place => cases op <;> exact hone h
  | binary op left right =>
    cases writer with
    | filter place => exact mem_nodes_of_ofOperation h
    | scalar =>
      rcases mem_cons.1 h with rfl | h
      · exact mem_append_left _ (Expr.mem_nodes_self _)
      · exact mem_append_right _ (hone h)
  | cond test ifTrue ifFalse =>
    have hthree : ∀ {a b c : Writer}, q ∈ [⟨a, test⟩, ⟨b, ifTrue⟩, ⟨c, ifFalse⟩] →
        q.expr ∈ test.nodes ++ (ifTrue.nodes ++ ifFalse.nodes) := by
      intro a b c hq
      rcases mem_cons.1 hq with rfl | hq
      · exact mem_append_left _ (Expr.mem_nodes_self _)
      · rcases mem_cons.1 hq with rfl | hq
        · exact mem_append_right _ (mem_append_left _ (Expr.mem_nodes_self _))
        · exact mem_append_right _ (mem_append_right _ (hone hq))
    cases writer with
    | scalar => exact hthree h
    | filter place => exact hthree h
  | _ => cases writer <;> cases h

end Part

end StreamQuery
