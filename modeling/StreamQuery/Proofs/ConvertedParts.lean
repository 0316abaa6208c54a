import StreamQuery.Proofs.SplitTexts
import StreamQuery.Proofs.WrittenParts

/-!
# Conversions in row filters

A conversion leaves no trace in a row filter, with one exception: a member that is read from a
converted row loses the alias of the row, because the chain of accesses is followed to its parameter
through members only.

`Context` gives an occurrence of an expression by the operations around it. Two expressions that are
written alike are written alike in every operation that looks at their texts, their types and
whether they are null only (`Alike.frame`), and so in every context (`Alike.context`).
-/

namespace StreamQuery

open List

/-! ## Contexts -/

namespace Expr

/-- An operation with one of its operands left out. -/
inductive Frame where
  | memberOf (name : String) (type : DataType) (isKey : Bool)
  | receiverOf (method : Method) (args : List Expr)
  | argumentOf (method : Method) (receiver : Option Expr) (before after : List Expr)
  | bodyOf (params : List Param)
  | operandOf (op : UnaryOp) (type : DataType)
  | leftOf (op : BinaryOp) (right : Expr)
  | rightOf (op : BinaryOp) (left : Expr)
  | testOf (ifTrue ifFalse : Expr)
  | thenOf (test ifFalse : Expr)
  | elseOf (test ifTrue : Expr)
  | fieldOf (typeName : Option String) (before : List (String × Expr)) (name : String)
      (after : List (String × Expr))

namespace Frame

/-- The operation with its operand. -/
def fill : Frame → Expr → Expr
  | memberOf name type isKey, e => .member e name type isKey
  | receiverOf method args, e => .call method (some e) args
  | argumentOf method receiver before after, e => .call method receiver (before ++ e :: after)
  | bodyOf params, e => .lambda params e
  | operandOf op type, e => .unary op e type
  | leftOf op right, e => .binary op e right
  | rightOf op left, e => .binary op left e
  | testOf ifTrue ifFalse, e => .cond e ifTrue ifFalse
  | thenOf test ifFalse, e => .cond test e ifFalse
  | elseOf test ifTrue, e => .cond test ifTrue e
  | fieldOf typeName before name after, e => .record typeName (before ++ (name, e) :: after)

/-- The other operands. -/
def siblings : Frame → List Expr
  | memberOf _ _ _ | bodyOf _ | operandOf _ _ => []
  | receiverOf _ args => args
  | argumentOf _ receiver before after => receiver.toList ++ (before ++ after)
  | leftOf _ e | rightOf _ e => [e]
  | testOf a b | thenOf a b | elseOf a b => [a, b]
  | fieldOf _ before _ after => (before ++ after).map Prod.snd

/-- True for a member access. -/
def isMember : Frame → Bool
  | memberOf _ _ _ => true
  | _ => false

/-- True for a call of an aggregate. -/
def isAggregate : Frame → Bool
  | receiverOf method _ | argumentOf method _ _ _ => Function.isAggregate method.name
  | _ => false

end Frame

/-- The operations around an occurrence of an expression, the innermost first. -/
abbrev Context := List Frame

namespace Context

/-- The expression with the given one in the context. -/
def fill (C : Context) (e : Expr) : Expr :=
  C.foldl (fun e f => f.fill e) e

/-- True when the innermost operation is a member access. -/
def readsMember (C : Context) : Bool :=
  C.head?.any Frame.isMember

lemma fill_concat (C : Context) (f : Frame) (e : Expr) : fill (C ++ [f]) e = f.fill (C.fill e) := by
  rw [fill, foldl_append]
  rfl

end Context

/-! ## The nodes of a filled context -/

lemma nodesOf_append (as bs : List Expr) : nodesOf (as ++ bs) = nodesOf as ++ nodesOf bs := by
  induction as with
  | nil => rfl
  | cons e as ih => rw [cons_append, nodesOf, nodesOf, ih, append_assoc]

lemma nodesOf?_eq (e : Option Expr) : nodesOf? e = nodesOf e.toList := by
  cases e with
  | none => rfl
  | some e => exact (append_nil e.nodes).symm

lemma nodesOfMembers_eq (members : List (String × Expr)) :
    nodesOfMembers members = nodesOf (members.map Prod.snd) := by
  induction members with
  | nil => rfl
  | cons m members ih => rw [nodesOfMembers, map_cons, nodesOf, ih]

lemma heightOf_append (as bs : List Expr) :
    heightOf (as ++ bs) = max (heightOf as) (heightOf bs) := by
  induction as with
  | nil => rw [nil_append, heightOf, Nat.zero_max]
  | cons e as ih => rw [cons_append, heightOf, heightOf, ih, Nat.max_assoc]

lemma heightOfMembers_eq (members : List (String × Expr)) :
    heightOfMembers members = heightOf (members.map Prod.snd) := by
  induction members with
  | nil => rfl
  | cons m members ih => rw [heightOfMembers, map_cons, heightOf, ih]

namespace Frame

/-- A frame adds itself and the nodes of its siblings. -/
lemma nodes_fill (f : Frame) (e : Expr) :
    (f.fill e).nodes.Perm (f.fill e :: (e.nodes ++ nodesOf f.siblings)) := by
  -- one operand among others comes first
  have hamong : ∀ before after : List Expr,
      (nodesOf (before ++ e :: after)).Perm (e.nodes ++ nodesOf (before ++ after)) := by
    intro before after
    rw [nodesOf_append, nodesOf, nodesOf_append]
    exact perm_append_comm_assoc _ _ _
  cases f with
  | receiverOf _ args => rw [siblings, fill, nodes, nodesOf?]
  | argumentOf _ receiver before after =>
    rw [siblings, fill, nodes, nodesOf?_eq, ← nodesOf_append, ← append_assoc, ← append_assoc]
    exact (hamong (receiver.toList ++ before) after).cons _
  | leftOf _ right => rw [siblings, fill, nodes, nodesOf, nodesOf, append_nil]
  | rightOf _ left =>
    rw [siblings, fill, nodes, nodesOf, nodesOf, append_nil]
    exact perm_append_comm.cons _
  | testOf a b => rw [siblings, fill, nodes, nodesOf, nodesOf, nodesOf, append_nil]
  | thenOf a b =>
    rw [siblings, fill, nodes, nodesOf, nodesOf, nodesOf, append_nil]
    exact (perm_append_comm_assoc _ _ _).cons _
  | elseOf a b =>
    rw [siblings, fill, nodes, nodesOf, nodesOf, nodesOf, append_nil, ← append_assoc]
    exact perm_append_comm.cons _
  | fieldOf _ before _ after =>
    rw [siblings, fill, nodes, nodesOfMembers_eq, map_append, map_cons, map_append]
    exact (hamong _ _).cons _
  | _ => rw [siblings, nodesOf, append_nil, fill, nodes]

lemma height_fill_le (f : Frame) {e e' : Expr} (h : e.height ≤ e'.height) :
    (f.fill e).height ≤ (f.fill e').height := by
  cases f with
  | memberOf _ _ _ => exact Nat.le_refl 0
  | receiverOf _ args =>
    simp only [fill, height, heightOf?]
    omega
  | argumentOf _ receiver before after =>
    simp only [fill, height, heightOf_append, heightOf]
    omega
  | fieldOf _ before _ after =>
    simp only [fill, height, heightOfMembers_eq, map_append, map_cons, heightOf_append, heightOf]
    omega
  | _ =>
    simp only [fill, height]
    omega

lemma hasAggregate_fill (f : Frame) (e : Expr) : (f.fill e).hasAggregate =
    (f.isAggregate || (e.hasAggregate || f.siblings.any hasAggregate)) := by
  have hany : ∀ (p : Expr → Bool) (es : List Expr), (nodesOf es).any p = es.any (anyNode p) := by
    intro p es
    induction es with
    | nil => rfl
    | cons e es ih => rw [nodesOf, any_append, ih, any_cons, anyNode]
  have hsplit : ∀ p : Expr → Bool, (f.fill e).anyNode p =
      (p (f.fill e) || (e.anyNode p || f.siblings.any (anyNode p))) := by
    intro p
    rw [anyNode, (f.nodes_fill e).any_eq, any_cons, any_append, hany, anyNode]
  unfold hasAggregate
  rw [hsplit]
  congr 1
  cases f <;> rfl

end Frame

namespace Context

variable (C : Context) {e e' : Expr}

lemma height_fill_le (h : e.height ≤ e'.height) : (C.fill e).height ≤ (C.fill e').height := by
  induction C generalizing e e' with
  | nil => exact h
  | cons f C ih => exact ih (f.height_fill_le h)

lemma length_nodes_fill_le (h : e.nodes.length ≤ e'.nodes.length) :
    (C.fill e).nodes.length ≤ (C.fill e').nodes.length := by
  induction C generalizing e e' with
  | nil => exact h
  | cons f C ih =>
    refine ih ?_
    rw [(f.nodes_fill e).length_eq, (f.nodes_fill e').length_eq, length_cons,
      length_cons, length_append, length_append]
    omega

/-- A context takes no nodes away. -/
lemma length_nodes_le_fill (e : Expr) : e.nodes.length ≤ (C.fill e).nodes.length := by
  induction C generalizing e with
  | nil => exact Nat.le_refl _
  | cons f C ih =>
    have hstep := (f.nodes_fill e).length_eq
    rw [length_cons, length_append] at hstep
    exact Nat.le_trans (by omega) (ih (f.fill e))

lemma hasAggregate_fill_congr (h : e'.hasAggregate = e.hasAggregate) :
    (C.fill e').hasAggregate = (C.fill e).hasAggregate := by
  induction C generalizing e e' with
  | nil => exact h
  | cons f C ih =>
    refine ih ?_
    rw [f.hasAggregate_fill, f.hasAggregate_fill, h]

/-- Without an aggregate around it, an expression has none. -/
lemma not_hasAggregate_of_fill {C : Context} (h : (C.fill e).hasAggregate = false) :
    e.hasAggregate = false ∧ ∀ f ∈ C, f.isAggregate = false := by
  induction C generalizing e with
  | nil => exact ⟨h, fun f hf => absurd hf not_mem_nil⟩
  | cons f C ih =>
    obtain ⟨hfirst, hrest⟩ := ih h
    rw [f.hasAggregate_fill, Bool.or_eq_false_iff, Bool.or_eq_false_iff] at hfirst
    refine ⟨hfirst.2.1, fun g hg => ?_⟩
    rcases mem_cons.1 hg with rfl | hg
    · exact hfirst.1
    · exact hrest g hg

end Context

/-- A proper part is part of an operand. -/
lemma exists_frame_of_mem_tail {s e : Expr} (h : s ∈ e.nodes.tail) :
    ∃ (f : Frame) (operand : Expr), f.fill operand = e ∧ s ∈ operand.nodes := by
  have hamong : ∀ es : List Expr, s ∈ nodesOf es →
      ∃ before operand after, es = before ++ operand :: after ∧ s ∈ operand.nodes := by
    intro es hs
    induction es with
    | nil => exact absurd hs not_mem_nil
    | cons e es ih =>
      rcases mem_append.1 hs with hs | hs
      · exact ⟨[], e, es, rfl, hs⟩
      · obtain ⟨before, operand, after, rfl, hbelow⟩ := ih hs
        exact ⟨e :: before, operand, after, rfl, hbelow⟩
  cases e with
  | param _ | const _ => exact absurd h not_mem_nil
  | member target name type isKey => exact ⟨.memberOf name type isKey, target, rfl, h⟩
  | lambda params body => exact ⟨.bodyOf params, body, rfl, h⟩
  | unary op operand type => exact ⟨.operandOf op type, operand, rfl, h⟩
  | call method receiver args =>
    rcases mem_append.1 h with hs | hs
    · cases receiver with
      | none => exact absurd hs not_mem_nil
      | some receiver => exact ⟨.receiverOf method args, receiver, rfl, hs⟩
    · obtain ⟨before, operand, after, rfl, hbelow⟩ := hamong args hs
      exact ⟨.argumentOf method receiver before after, operand, rfl, hbelow⟩
  | binary op left right =>
    rcases mem_append.1 h with hs | hs
    · exact ⟨.leftOf op right, left, rfl, hs⟩
    · exact ⟨.rightOf op left, right, rfl, hs⟩
  | cond test ifTrue ifFalse =>
    rcases mem_append.1 h with hs | hs
    · exact ⟨.testOf ifTrue ifFalse, test, rfl, hs⟩
    · rcases mem_append.1 hs with hs | hs
      · exact ⟨.thenOf test ifFalse, ifTrue, rfl, hs⟩
      · exact ⟨.elseOf test ifTrue, ifFalse, rfl, hs⟩
  | record typeName members =>
    rw [nodes, tail_cons, nodesOfMembers_eq] at h
    obtain ⟨before, operand, after, hvalues, hs⟩ := hamong _ h
    obtain ⟨front, back, rfl, -, hback⟩ := map_eq_append_iff.1 hvalues
    obtain ⟨m, behind, rfl, rfl, -⟩ := map_eq_cons_iff.1 hback
    exact ⟨.fieldOf typeName front m.1 behind, m.2, rfl, hs⟩

/-- The occurrences of an expression in another are its contexts. -/
theorem mem_nodes_iff_fill {s e : Expr} : s ∈ e.nodes ↔ ∃ C : Context, C.fill s = e := by
  constructor
  · intro h
    induction hn : e.nodes.length using Nat.strong_induction_on generalizing e with
    | _ n ih =>
      rw [nodes_eq_cons, mem_cons] at h
      rcases h with rfl | h
      · exact ⟨[], rfl⟩
      · obtain ⟨f, operand, rfl, hs⟩ := exists_frame_of_mem_tail h
        have hlength := (f.nodes_fill operand).length_eq
        rw [length_cons, length_append] at hlength
        obtain ⟨C, rfl⟩ := ih operand.nodes.length (by omega) hs rfl
        exact ⟨C ++ [f], C.fill_concat f s⟩
  · rintro ⟨C, rfl⟩
    have hmem : ∀ e : Expr, s ∈ e.nodes → s ∈ (C.fill e).nodes := by
      induction C with
      | nil => exact fun e he => he
      | cons f C ih =>
        intro e he
        refine ih (f.fill e) ?_
        rw [(f.nodes_fill e).mem_iff]
        exact mem_cons_of_mem _ (mem_append_left _ he)
    exact hmem s (mem_nodes_self s)

end Expr

/-! ## Expressions that are written alike -/

/-- The alias of the parameter that a chain of member accesses starts from. -/
def AliasTable.ofRoot? (t : AliasTable) (e : Expr) : Option String :=
  e.root?.bind fun p => t.alias? p.name

/-- Two calls of one method with operands of the same types and texts. -/
structure CallTexts.Alike (c' c : CallTexts) : Prop where
  method : c'.method = c.method
  receiver : Option.Rel (fun e' e => e'.type = e.type) c'.receiver c.receiver
  args : List.Forall₂ (fun e' e => e'.type = e.type) c'.args c.args
  receiverText : c'.receiverText = c.receiverText
  argTexts : c'.argTexts = c.argTexts

namespace CallTexts.Alike

variable {c c' : CallTexts}

lemma receiverType (h : Alike c' c) : c'.receiver.map Expr.type = c.receiver.map Expr.type := by
  generalize c'.receiver = x, c.receiver = y, h.receiver = hxy
  cases hxy with
  | none => rfl
  | some htype => exact congrArg some htype

lemma operands (h : Alike c' c) : c'.operands.map Expr.type = c.operands.map Expr.type := by
  have hargs : List.Forall₂ Eq (c'.args.map Expr.type) (c.args.map Expr.type) := by
    rw [forall₂_map_left_iff, forall₂_map_right_iff]
    exact h.args
  rw [forall₂_eq_eq_eq] at hargs
  rw [CallTexts.operands, CallTexts.operands, ← Method.operands_map, ← Method.operands_map,
    h.method, h.receiverType, hargs]

lemma length_operands (h : Alike c' c) : c'.operands.length = c.operands.length := by
  have hlength := congrArg List.length h.operands
  rwa [length_map, length_map] at hlength

lemma operandTexts (h : Alike c' c) : c'.operandTexts = c.operandTexts := by
  rw [CallTexts.operandTexts, CallTexts.operandTexts, h.method, h.receiverText, h.argTexts]

lemma allTexts (h : Alike c' c) : c'.allTexts = c.allTexts := by
  rw [CallTexts.allTexts, CallTexts.allTexts, h.operandTexts]

lemma subject? (h : Alike c' c) : c'.subject?.map (Prod.map Expr.type id) =
    c.subject?.map (Prod.map Expr.type id) := by
  have hpair : ∀ (e : Option Expr) (x : Option (Except Fault String)),
      (e.bind fun e => x.map (Prod.mk e)).map (Prod.map Expr.type id) =
        (e.map Expr.type).bind fun type => x.map (Prod.mk type) := by
    intro e x
    cases e <;> cases x <;> rfl
  have hhead : c'.operands.head?.map Expr.type = c.operands.head?.map Expr.type := by
    rw [← head?_map, ← head?_map, h.operands]
  rw [subject?_eq, subject?_eq, Option.map_or, Option.map_or, hpair, hpair, hpair, hpair,
    h.receiverType, h.receiverText, hhead, h.operandTexts]

lemma toStringText (h : Alike c' c) : c'.toStringText = c.toStringText := by
  have hsubject := h.subject?
  unfold CallTexts.toStringText
  cases hc' : c'.subject? with
  | none =>
    cases hc : c.subject? with
    | none => rfl
    | some s => rw [hc, hc'] at hsubject; cases hsubject
  | some s' =>
    cases hc : c.subject? with
    | none => rw [hc, hc'] at hsubject; cases hsubject
    | some s =>
      rw [hc, hc', Option.map_some, Option.map_some, Option.some_inj, Prod.ext_iff] at hsubject
      obtain ⟨htype, htext⟩ := hsubject
      dsimp only [Prod.map, id] at htype htext ⊢
      rw [htype, htext]

/-- Calls alike are written alike, unless they count. -/
lemma text (h : Alike c' c) (hcount : c.method.name ≠ "Count") (d : Dialect) :
    c'.text d = c.text d := by
  have hspecial : ∀ rule, c'.specialText d rule = c.specialText d rule := by
    intro rule
    unfold CallTexts.specialText CallTexts.conversionText
    rw [h.method, h.toStringText, h.allTexts, beq_eq_false_iff_ne.2 hcount]
    rfl
  unfold CallTexts.text CallTexts.unknownText
  rw [h.method, h.length_operands, h.operandTexts, h.operands, h.allTexts]
  simp only [hspecial]

/-- Calls alike are the same membership test. -/
lemma membership? (h : Alike c' c) : Filter.membership? c' = Filter.membership? c := by
  obtain ⟨method, receiver, args, receiverText, argTexts⟩ := c
  obtain ⟨method', receiver', args', receiverText', argTexts'⟩ := c'
  obtain ⟨rfl, hreceiver, hargs, rfl, rfl⟩ := h
  have hif : ∀ {type type' : DataType} (pair : Except Fault String × Except Fault String),
      type' = type → (if type'.isCollection = true then some pair else none) =
        if type.isCollection = true then some pair else none := by
    intro type type' pair htype
    rw [htype]
  unfold Filter.membership?
  dsimp only
  congr 1
  cases method'.binding with
  | onInstance =>
    cases hreceiver with
    | none => rfl
    | some htype =>
      rcases receiverText' with _ | text
      · rfl
      · rcases hargs with _ | ⟨_, _ | ⟨_, _⟩⟩
        · rfl
        · rcases argTexts' with _ | ⟨value, _ | ⟨_, _⟩⟩
          · rfl
          · exact hif _ htype
          · rfl
        · rfl
  | onType | extending =>
    cases hreceiver with
    | some _ => rfl
    | none =>
      rcases hargs with _ | ⟨htype, _ | ⟨_, _ | ⟨_, _⟩⟩⟩
      · rfl
      · rfl
      · rcases argTexts' with _ | ⟨text, _ | ⟨value, _ | ⟨_, _⟩⟩⟩
        · rfl
        · rfl
        · exact hif _ htype
        · rfl
      · rfl

/-- In a filter calls are written alike if they are as scalars. -/
lemma callText (h : Alike c' c) {d : Dialect} {aliases : AliasTable}
    (hscalar : Expr.scalarCall d (Filter.memberText aliases) c'.method c'.receiver c'.args =
      Expr.scalarCall d (Filter.memberText aliases) c.method c.receiver c.args) (place : Place) :
    Filter.callText d aliases place c' = Filter.callText d aliases place c := by
  have hplain : Filter.plainCallText d aliases c' = Filter.plainCallText d aliases c := by
    unfold Filter.plainCallText
    dsimp only
    rw [hscalar, h.method, h.receiverText, h.argTexts]
    generalize c'.receiver = x, c.receiver = y, h.receiver = hxy
    cases c.method.binding with
    | onType | extending => rfl
    | onInstance =>
      cases hxy with
      | none => rfl
      | some htype =>
        rcases c.receiverText with _ | text
        · rfl
        · rcases c.argTexts with _ | ⟨value, _ | ⟨_, _⟩⟩
          · rfl
          · dsimp only
            rw [htype]
          · rfl
  unfold Filter.callText
  rw [h.membership?, hplain]

end CallTexts.Alike

namespace Expr

/-- Two expressions that a row filter writes alike wherever it looks at their texts, their types and
whether they are null only. -/
structure Alike (d : Dialect) (aliases : AliasTable) (e' e : Expr) : Prop where
  type : e'.type = e.type
  isNull : e'.isNull = e.isNull
  filterText : ∀ place, e'.filterText d aliases place = e.filterText d aliases place
  scalar : e'.scalar d (Filter.memberText aliases) = e.scalar d (Filter.memberText aliases)
  compositeTexts? : e'.compositeTexts? d aliases = e.compositeTexts? d aliases

/-- The conversion of an expression to its own type. -/
def converted (e : Expr) : Expr :=
  .unary .convert e e.type

namespace Alike

variable {d : Dialect} {aliases : AliasTable} {e e' : Expr}

lemma refl (e : Expr) : Alike d aliases e e :=
  ⟨rfl, rfl, fun _ => rfl, rfl, rfl⟩

/-- A conversion is written like what is converted. -/
lemma converted (d : Dialect) (aliases : AliasTable) (e : Expr) :
    Alike d aliases e.converted e where
  type := rfl
  isNull := rfl
  filterText place := Expr.filterText_convert d aliases place e e.type
  scalar := Expr.scalar_convert d (Filter.memberText aliases) e e.type
  compositeTexts? := by rw [Expr.converted, Expr.compositeTexts?]

/-- Member accesses are alike if their parameters have the same alias. -/
lemma member (h : Alike d aliases e' e) (hroot : aliases.ofRoot? e' = aliases.ofRoot? e)
    (name : String) (type : DataType) (isKey : Bool) :
    Alike d aliases (.member e' name type isKey) (.member e name type isKey) := by
  have hcolumn : Filter.columnText aliases ⟨e', name, type, isKey⟩ =
      Filter.columnText aliases ⟨e, name, type, isKey⟩ :=
    congrArg (qualified · name) hroot
  refine ⟨rfl, rfl, fun place => ?_, ?_, rfl⟩
  · rw [Expr.filterText, Expr.filterText, h.filterText]
    unfold Filter.accessText
    dsimp only
    rw [hcolumn, h.type]
  · rw [Expr.scalar, Expr.scalar, Filter.memberText, Filter.memberText, hcolumn]

/-- Calls with alike operands are alike, unless they are aggregates. -/
lemma call {method : Method} {receiver receiver' : Option Expr} {args args' : List Expr}
    (hmethod : Function.isAggregate method.name = false)
    (hreceiver : Option.Rel (Alike d aliases) receiver' receiver)
    (hargs : List.Forall₂ (Alike d aliases) args' args) :
    Alike d aliases (.call method receiver' args') (.call method receiver args) := by
  have hcount : method.name ≠ "Count" := by
    intro hname
    rw [hname] at hmethod
    exact absurd hmethod (by decide)
  have hreceiverType : Option.Rel (fun e' e => e'.type = e.type) receiver' receiver := by
    cases hreceiver with
    | none => exact .none
    | some h => exact .some h.type
  have hargTypes : List.Forall₂ (fun e' e => e'.type = e.type) args' args :=
    hargs.imp fun _ _ h => h.type
  have halike : ∀ receiverText argTexts,
      CallTexts.Alike ⟨method, receiver', args', receiverText, argTexts⟩
        ⟨method, receiver, args, receiverText, argTexts⟩ := fun _ _ =>
    ⟨rfl, hreceiverType, hargTypes, rfl, rfl⟩
  have hinner : Expr.scalar? d (Filter.memberText aliases) receiver' =
        Expr.scalar? d (Filter.memberText aliases) receiver ∧
      Expr.filterText? d aliases receiver' = Expr.filterText? d aliases receiver := by
    cases hreceiver with
    | none => exact ⟨rfl, rfl⟩
    | some h => exact ⟨congrArg some h.scalar, congrArg some (h.filterText .value)⟩
  have hlist : Expr.scalars d (Filter.memberText aliases) args' =
        Expr.scalars d (Filter.memberText aliases) args ∧
      Expr.filterTexts d aliases args' = Expr.filterTexts d aliases args := by
    clear hargTypes halike
    induction hargs with
    | nil => exact ⟨rfl, rfl⟩
    | cons h _ ih =>
      rw [Expr.scalars, Expr.scalars, Expr.filterTexts, Expr.filterTexts, h.scalar, h.filterText,
        ih.1, ih.2]
      exact ⟨rfl, rfl⟩
  have hscalar : (Expr.call method receiver' args').scalar d (Filter.memberText aliases) =
      (Expr.call method receiver args).scalar d (Filter.memberText aliases) := by
    rw [Expr.scalar, Expr.scalar, hinner.1, hlist.1]
    exact (halike _ _).text hcount d
  refine ⟨rfl, rfl, fun place => ?_, hscalar, rfl⟩
  rw [Expr.filterText, Expr.filterText, hinner.2, hlist.2]
  exact (halike _ _).callText hscalar place

lemma lambda (h : Alike d aliases e' e) (params : List Param) :
    Alike d aliases (.lambda params e') (.lambda params e) := by
  refine ⟨h.type, rfl, fun place => ?_, ?_, rfl⟩
  · cases place with
    | negated => rw [Expr.filterText, Expr.filterText, h.filterText]
    | value => exact h.filterText .value
    | condition => exact h.filterText .condition
  · rw [Expr.scalar, Expr.scalar, h.scalar]

lemma unary (h : Alike d aliases e' e) (op : UnaryOp) (type : DataType) :
    Alike d aliases (.unary op e' type) (.unary op e type) := by
  have hscalar : (Expr.unary op e' type).scalar d (Filter.memberText aliases) =
      (Expr.unary op e type).scalar d (Filter.memberText aliases) := by
    rw [Expr.scalar, Expr.scalar, h.scalar]
  cases op with
  | not =>
    refine ⟨rfl, rfl, fun place => ?_, hscalar, rfl⟩
    rw [Expr.filterText, Expr.filterText, h.filterText]
  | negate =>
    refine ⟨rfl, rfl, fun place => ?_, hscalar, rfl⟩
    rw [Expr.filterText, Expr.filterText, h.filterText]
  | convert =>
    refine ⟨rfl, h.isNull, fun place => ?_, hscalar, ?_⟩
    · rw [Expr.filterText, Expr.filterText, h.filterText]
    · rw [Expr.compositeTexts?, Expr.compositeTexts?, h.compositeTexts?]

/-- Binary operations on operands that are written alike are written alike. -/
lemma binary {left left' right right' : Expr} (hleft : Alike d aliases left' left)
    (hright : Alike d aliases right' right) (op : BinaryOp) :
    Alike d aliases (.binary op left' right') (.binary op left right) := by
  refine ⟨?_, rfl, fun place => ?_, ?_, rfl⟩
  · rw [Expr.type, Expr.type, hleft.type]
  · rw [Expr.filterText, Expr.filterText, hleft.isNull, hright.isNull, hleft.filterText,
      hright.filterText, hleft.compositeTexts?, hright.compositeTexts?, hleft.filterText,
      hright.filterText]
  · rw [Expr.scalar, Expr.scalar, hleft.scalar, hright.scalar]

/-- Choices between values that are written alike are written alike. -/
lemma cond {test test' ifTrue ifTrue' ifFalse ifFalse' : Expr} (htest : Alike d aliases test' test)
    (htrue : Alike d aliases ifTrue' ifTrue) (hfalse : Alike d aliases ifFalse' ifFalse) :
    Alike d aliases (.cond test' ifTrue' ifFalse') (.cond test ifTrue ifFalse) := by
  refine ⟨htrue.type, rfl, fun place => ?_, ?_, rfl⟩
  · rw [Expr.filterText, Expr.filterText, htest.filterText, htrue.filterText, hfalse.filterText]
  · rw [Expr.scalar, Expr.scalar, htest.scalar, htrue.scalar, hfalse.scalar]

/-- Records with members that are written alike are written alike. -/
lemma record (h : Alike d aliases e' e) (typeName : Option String)
    (before : List (String × Expr)) (name : String) (after : List (String × Expr)) :
    Alike d aliases (.record typeName (before ++ (name, e') :: after))
      (.record typeName (before ++ (name, e) :: after)) := by
  have hmembers : Expr.filterMembers d aliases (before ++ (name, e') :: after) =
      Expr.filterMembers d aliases (before ++ (name, e) :: after) := by
    induction before with
    | nil => rw [nil_append, nil_append, Expr.filterMembers, Expr.filterMembers,
        h.filterText]
    | cons m before ih => rw [cons_append, cons_append, Expr.filterMembers,
        Expr.filterMembers, ih]
  refine ⟨rfl, rfl, fun place => ?_, ?_, ?_⟩
  · rw [Expr.filterText, Expr.filterText]
  · rw [Expr.scalar, Expr.scalar]
  · rw [Expr.compositeTexts?, Expr.compositeTexts?, hmembers]

/-- Operations on alike operands are alike; a member access needs one alias too. -/
lemma frame (h : Alike d aliases e' e) {f : Frame} (hplain : f.isAggregate = false)
    (hroot : f.isMember → aliases.ofRoot? e' = aliases.ofRoot? e) :
    Alike d aliases (f.fill e') (f.fill e) := by
  have hothers : ∀ es : List Expr, List.Forall₂ (Alike d aliases) es es := fun es =>
    forall₂_same.2 fun e _ => refl e
  cases f with
  | memberOf name type isKey => exact h.member (hroot rfl) name type isKey
  | receiverOf method args => exact call hplain (.some h) (hothers args)
  | argumentOf method receiver before after =>
    have hreceiver : Option.Rel (Alike d aliases) receiver receiver := by
      cases receiver with
      | none => exact .none
      | some e => exact .some (refl e)
    exact call hplain hreceiver (rel_append (hothers before) (.cons h (hothers after)))
  | bodyOf params => exact h.lambda params
  | operandOf op type => exact h.unary op type
  | leftOf op right => exact binary h (refl right) op
  | rightOf op left => exact binary (refl left) h op
  | testOf ifTrue ifFalse => exact cond h (refl ifTrue) (refl ifFalse)
  | thenOf test ifFalse => exact cond (refl test) h (refl ifFalse)
  | elseOf test ifTrue => exact cond (refl test) (refl ifTrue) h
  | fieldOf typeName before name after => exact h.record typeName before name after

/-- What is alike is alike in every context without aggregates, below a member access if it has one
alias too. -/
theorem context {C : Context} (h : Alike d aliases e' e) (hplain : ∀ f ∈ C, f.isAggregate = false)
    (hroot : C.readsMember → aliases.ofRoot? e' = aliases.ofRoot? e) :
    Alike d aliases (C.fill e') (C.fill e) := by
  induction C generalizing e e' with
  | nil => exact h
  | cons f C ih =>
    -- behind a member access the alias is that of its operand, and behind all else there is none
    have hnext : aliases.ofRoot? (f.fill e') = aliases.ofRoot? (f.fill e) := by
      cases f with
      | memberOf name type isKey => exact hroot rfl
      | _ => rfl
    exact ih (h.frame (hplain f (mem_cons_self ..)) hroot)
      (forall_mem_cons.1 hplain).2 fun _ => hnext

end Alike

end Expr

/-! ## Filters -/

open StreamQuery.Expr

/-- The size check bounds the height and the nodes. -/
lemma Expr.checkSize_eq_ok_iff {e : Expr} : e.checkSize = .ok () ↔
    e.height ≤ maxHeight ∧ e.nodes.length ≤ maxNodes := by
  unfold Expr.checkSize
  split_ifs with hheight hnodes
  · constructor
    · intro h
      cases h
    · intro h
      omega
  · constructor
    · intro h
      cases h
    · intro h
      omega
  · exact iff_of_true rfl ⟨by omega, by omega⟩

lemma Expr.hasAggregate_converted (e : Expr) : e.converted.hasAggregate = e.hasAggregate := by
  have hfill := (Frame.operandOf .convert e.type).hasAggregate_fill e
  rw [Frame.siblings, any_nil, Bool.or_false] at hfill
  exact hfill

/-- A member path has no aggregate. -/
lemma Expr.hasAggregate_of_root? {e : Expr} {p : Param} (h : e.root? = some p) :
    e.hasAggregate = false := by
  induction e using Expr.root?.induct with
  | case1 p => rfl
  | case2 target name type isKey ih =>
    have hfill := (Frame.memberOf name type isKey).hasAggregate_fill target
    rw [Frame.siblings, any_nil, Bool.or_false, ih h] at hfill
    exact hfill
  | case3 e hparam hmember =>
    rw [Expr.root?] at h
    · cases h
    · exact hparam
    · exact hmember

section

variable {d : Dialect} {aliases : AliasTable} {params : List Param} {e : Expr}

/-- The body of a filter within the limits that has no aggregate. -/
lemma filterBody_eq (hsize : e.checkSize = .ok ()) (hplain : e.hasAggregate = false) :
    (Lambda.mk params e).filterBody d aliases =
      (e.filterText d aliases .condition).bind (nonEmpty .filter) := by
  unfold Lambda.filterBody
  rw [hsize, hplain]
  rfl

/-- A filter within the limits that has an aggregate is refused. -/
lemma filterBody_of_hasAggregate (hsize : e.checkSize = .ok ()) (haggregate : e.hasAggregate) :
    (Lambda.mk params e).filterBody d aliases = .error .aggregateInFilter := by
  unfold Lambda.filterBody
  rw [hsize, haggregate]
  rfl

end

/-- A conversion leaves no trace in a filter within the limits on its size. -/
def Expr.Context.HidesConversion (C : Context) (aliases : AliasTable) (s : Expr) : Prop :=
  ∀ (d : Dialect) (params : List Param), (C.fill s.converted).checkSize = .ok () →
    (Lambda.mk params (C.fill s.converted)).filterBody d aliases =
      (Lambda.mk params (C.fill s)).filterBody d aliases

namespace Expr.Context

variable {C : Context} {aliases : AliasTable} {s : Expr}

/-- A conversion leaves no trace if it leaves none in filters without aggregates. -/
lemma hidesConversion_of_filterText
    (h : (C.fill s).hasAggregate = false → ∀ d,
      (C.fill s.converted).filterText d aliases .condition =
        (C.fill s).filterText d aliases .condition) : C.HidesConversion aliases s := by
  intro d params hsize
  have hnodes : s.nodes.length ≤ s.converted.nodes.length := Nat.le_succ _
  have hsize' : (C.fill s).checkSize = .ok () := by
    rw [checkSize_eq_ok_iff] at hsize ⊢
    exact ⟨(C.height_fill_le (Nat.le_succ s.height)).trans hsize.1,
      (C.length_nodes_fill_le hnodes).trans hsize.2⟩
  have haggregate := C.hasAggregate_fill_congr s.hasAggregate_converted
  cases hplain : (C.fill s).hasAggregate with
  | true =>
    rw [filterBody_of_hasAggregate hsize (haggregate.trans hplain),
      filterBody_of_hasAggregate hsize' hplain]
  | false =>
    rw [filterBody_eq hsize (haggregate.trans hplain), filterBody_eq hsize' hplain, h hplain]

/-- A conversion is hidden if no member of an aliased row is read. -/
lemma hidesConversion (h : C.readsMember → aliases.ofRoot? s = none) :
    C.HidesConversion aliases s := by
  refine hidesConversion_of_filterText fun hplain d => ?_
  have halike := (Alike.converted d aliases s).context (not_hasAggregate_of_fill hplain).2
    fun hreads => (h hreads).symm
  exact halike.filterText .condition

/-- A member access that does not write what it is read from, as a condition. -/
lemma filterText_member {name : String} {type : DataType} {isKey : Bool} {e : Expr}
    (h : Filter.writesTarget .condition ⟨e, name, type, isKey⟩ = false) (d : Dialect) :
    (Expr.member e name type isKey).filterText d aliases .condition =
      .ok (if type.isBool && !type.isNullable then
        "(" ++ qualified (aliases.ofRoot? e) name ++ " = true)"
      else qualified (aliases.ofRoot? e) name) := by
  have hnegated : (Place.condition == Place.negated) = false := rfl
  have hcondition : (Place.condition == Place.condition) := rfl
  rw [Filter.writesTarget, Bool.or_eq_false_iff, hnegated, Bool.and_false, Bool.not_false,
    Bool.true_and] at h
  rw [filterText]
  unfold Filter.accessText
  simp only [h.1, h.2, hnegated, hcondition, Bool.and_false, Bool.true_and, Bool.false_eq_true,
    if_false]
  split <;> rfl

/-- A member access that writes its target is alike from a conversion. -/
lemma filterText_member_converted {name : String} {type : DataType} {isKey : Bool}
    (h : Filter.writesTarget .condition ⟨s, name, type, isKey⟩) (d : Dialect) :
    (Expr.member s.converted name type isKey).filterText d aliases .condition =
      (Expr.member s name type isKey).filterText d aliases .condition := by
  have hnegated : (Place.condition == Place.negated) = false := rfl
  have halike := Alike.converted d aliases s
  rw [Filter.writesTarget, Bool.or_eq_true, hnegated, Bool.and_false, Bool.not_false,
    Bool.true_and] at h
  rw [filterText, filterText, halike.filterText]
  unfold Filter.accessText
  dsimp only
  rw [halike.type]
  rcases h with hvalue | hasValue
  · rw [if_pos hvalue, if_pos hvalue]
  · simp only [hnegated, hasValue, Bool.and_false, Bool.false_eq_true, if_false, if_true]

/-- A column with an alias is not the column without it, even in a comparison. -/
lemma nonEmpty_qualified_ne (aliasName name : String) (compared : Bool) :
    nonEmpty .filter (if compared then "(" ++ qualified none name ++ " = true)"
        else qualified none name) ≠
      nonEmpty .filter (if compared then "(" ++ qualified (some aliasName) name ++ " = true)"
        else qualified (some aliasName) name) := by
  have hkept : ∀ text : String, '.' ∈ text.toList → nonEmpty .filter text = .ok text := by
    intro text hdot
    rw [nonEmpty, Text.allBlank_eq_false (rfl : Text.isBlank '.' = false) hdot]
    rfl
  intro hsame
  cases compared with
  | true =>
    have hnamed := hkept ("(" ++ qualified (some aliasName) name ++ " = true)")
      (by simp [qualified])
    rw [if_pos rfl, if_pos rfl, hnamed] at hsame
    have hlength := congrArg (fun text => text.toList.length) (eq_of_nonEmpty hsame)
    simp [qualified] at hlength
    omega
  | false =>
    have hnamed := hkept (qualified (some aliasName) name) (by simp [qualified])
    rw [if_neg Bool.false_ne_true, if_neg Bool.false_ne_true, hnamed] at hsame
    have hlength := congrArg (fun text => text.toList.length) (eq_of_nonEmpty hsame)
    simp [qualified] at hlength
    omega

/-- A conversion leaves no trace below a member access exactly if what is converted has no alias or
the access writes what it is read from. -/
lemma hidesConversion_access_iff (hlimit : s.nodes.length + 2 ≤ maxNodes) (name : String)
    (type : DataType) (isKey : Bool) :
    HidesConversion [.memberOf name type isKey] aliases s ↔ aliases.ofRoot? s = none ∨
      Filter.writesTarget .condition ⟨s, name, type, isKey⟩ := by
  constructor
  · intro h
    by_contra hboth
    rw [not_or, Bool.not_eq_true] at hboth
    obtain ⟨halias, hwrites⟩ := hboth
    obtain ⟨aliasName, haliasName⟩ := Option.ne_none_iff_exists'.1 halias
    obtain ⟨p, hroot, -⟩ := Option.bind_eq_some_iff.1 haliasName
    have hplain : (Expr.member s name type isKey).hasAggregate = false :=
      hasAggregate_of_root? hroot
    have hplain' : (Expr.member s.converted name type isKey).hasAggregate = false := by
      rw [← hplain]
      exact hasAggregate_fill_congr [.memberOf name type isKey] s.hasAggregate_converted
    have hsize : ∀ {e : Expr}, e.nodes.length ≤ s.nodes.length + 1 →
        (Expr.member e name type isKey).checkSize = .ok () := by
      intro e he
      rw [checkSize_eq_ok_iff, height, nodes, length_cons]
      omega
    have hlarger : s.converted.nodes.length = s.nodes.length + 1 := by
      rw [converted, nodes, length_cons]
    have hwrites' : Filter.writesTarget .condition ⟨s.converted, name, type, isKey⟩ = false := by
      unfold Filter.writesTarget at hwrites ⊢
      dsimp only at hwrites ⊢
      rw [(Alike.converted default aliases s).type]
      exact hwrites
    have hsame : (Lambda.mk [] (.member s.converted name type isKey)).filterBody default aliases =
        (Lambda.mk [] (.member s name type isKey)).filterBody default aliases :=
      h default [] (hsize hlarger.le)
    have hnone : aliases.ofRoot? s.converted = none := rfl
    rw [filterBody_eq (hsize hlarger.le) hplain', filterBody_eq (hsize (Nat.le_succ _)) hplain,
      filterText_member hwrites, filterText_member hwrites', haliasName, hnone] at hsame
    dsimp only [Except.bind] at hsame
    exact nonEmpty_qualified_ne aliasName name _ hsame
  · rintro (halias | hwrites)
    · exact hidesConversion fun _ => halias
    · exact hidesConversion_of_filterText fun _ d => filterText_member_converted hwrites d

end Expr.Context

namespace Expr

/-- A conversion leaves no trace in a row filter unless a member is read from it; such a member, as
the whole filter, is the same exactly if the converted row has no alias or the access writes what it
is read from. So a conversion leaves no trace in any filter exactly if what is converted has no
alias, or is so large that no member can be read from it. -/
theorem conversion_hidden_iff (aliases : AliasTable) (s : Expr) :
    (∀ e : Expr, s ∈ e.nodes ↔ ∃ C : Context, C.fill s = e) ∧
      (∀ C : Context, C.readsMember = false → C.HidesConversion aliases s) ∧
      (s.nodes.length + 2 ≤ maxNodes → ∀ name type isKey,
        (Context.HidesConversion [.memberOf name type isKey] aliases s ↔
          aliases.ofRoot? s = none ∨
            Filter.writesTarget .condition ⟨s, name, type, isKey⟩ = true)) ∧
      ((∀ C : Context, C.HidesConversion aliases s) ↔
        aliases.ofRoot? s = none ∨ maxNodes < s.nodes.length + 2) := by
  refine ⟨fun e => mem_nodes_iff_fill, ?_, fun hlimit => Context.hidesConversion_access_iff hlimit,
    ?_, ?_⟩
  · intro C hreads
    refine Context.hidesConversion fun hmember => ?_
    rw [hreads] at hmember
    cases hmember
  · intro h
    rw [or_iff_not_imp_right, Nat.not_lt]
    intro hlimit
    have haccess := (Context.hidesConversion_access_iff hlimit "A" .unknown false).1 (h _)
    have hwrites : Filter.writesTarget .condition ⟨s, "A", .unknown, false⟩ = false := rfl
    exact haccess.resolve_right (by rw [hwrites]; exact Bool.false_ne_true)
  · rintro (halias | hlarge) C
    · exact Context.hidesConversion fun _ => halias
    · cases hreads : C.readsMember with
      | false =>
        refine Context.hidesConversion fun hmember => ?_
        rw [hreads] at hmember
        cases hmember
      | true =>
        -- the access and the conversion are two nodes more
        intro d params hsize
        obtain ⟨f, C, rfl⟩ : ∃ f C', C = f :: C' := by
          cases C with
          | nil => cases hreads
          | cons f C => exact ⟨f, C, rfl⟩
        have hall := Context.length_nodes_le_fill C (f.fill s.converted)
        have haccess := (f.nodes_fill s.converted).length_eq
        rw [length_cons, length_append, converted, nodes, length_cons] at haccess
        rw [checkSize_eq_ok_iff] at hsize
        have hlimit : (Context.fill C (f.fill s.converted)).nodes.length ≤ maxNodes := hsize.2
        rw [converted] at hall hlimit
        omega

end Expr

end StreamQuery
