import StreamQuery.Clause.GroupKeys
import StreamQuery.Proofs.ScalarForms

/-!
# Clause texts, form by form

Row filters and grouping keys are put together by sound templates as scalar texts are.  So two alias
tables under which the leaves of a clause are written as related texts write related clauses:
`Expr.filterText_inStep` for row filters, in every place, and `Expr.styled_inStep` for grouping
keys.
-/

namespace StreamQuery

open List

variable {aliases aliases' : AliasTable} {d : Dialect} {e : Expr} {R : List Char → List Char → Prop}

/-- Computations in step that both succeed give related results. -/
lemma InStep.related {α β : Type} {S : α → β → Prop} {x : Except Fault α} {y : Except Fault β}
    (h : InStep S x y) {a : α} {b : β} (ha : x = .ok a) (hb : y = .ok b) : S a b := by
  subst ha hb
  cases h with
  | ok h => exact h

/-- A choice between computations in step keeps step. -/
lemma InStep.ite {α β : Type} {S : α → β → Prop} {p : Bool} {x z : Except Fault α}
    {y w : Except Fault β} (hthen : InStep S x y) (helse : InStep S z w) :
    InStep S (if p then x else z) (if p then y else w) := by
  cases p with
  | true => exact hthen
  | false => exact helse

/-! ## Related clause texts -/

namespace FillRelation

variable {R : List Char → List Char → Prop} (hR : FillRelation R) {a b a' b' : String}

include hR

lemma wrap (place : Place) (ha : OnTexts R a a') : OnTexts R (place.wrap a) (place.wrap a') := by
  cases place with
  | negated => exact hR.unary .not ha
  | value => exact ha
  | condition => exact ha

/-- Operations without brackets on related texts are related; `spaced` is the sign with blanks. -/
lemma bare (sign spaced : String) (hsign : sign.toList.all Template.isPlain)
    (hspaced : spaced.toList = ' ' :: (sign.toList ++ [' '])) (ha : OnTexts R a a')
    (hb : OnTexts R b b') : OnTexts R (a ++ spaced ++ b) (a' ++ spaced ++ b') := by
  have htext : ∀ a b, a ++ spaced ++ b = TextForm.bare.text [a, sign, b] := fun a b =>
    TextForm.text_eq (by simp [hspaced])
  rw [htext, htext]
  exact hR.form TextForm.bare rfl (.cons ha (.cons (hR.self hsign) (.cons hb .nil)))

lemma nullTest {op : BinaryOp} {test : String} (htest : Filter.nullTest? op = some test)
    (ha : OnTexts R a a') : OnTexts R (a ++ test) (a' ++ test) := by
  have hwords :
      ∃ words : String, words.toList.all Template.isPlain ∧ test = " " ++ words := by
    cases op with
    | equal => exact ⟨"IS NULL", by decide, (Option.some.inj htest).symm⟩
    | notEqual => exact ⟨"IS NOT NULL", by decide, (Option.some.inj htest).symm⟩
    | _ => cases htest
  obtain ⟨words, hplain, rfl⟩ := hwords
  have htext : ∀ a, a ++ (" " ++ words) = TextForm.tested.text [a, words] := fun a =>
    TextForm.text_eq (by simp)
  rw [htext, htext]
  exact hR.form TextForm.tested rfl (.cons ha (.cons (hR.self hplain) .nil))

/-- Related texts are compared with a truth value. -/
lemma compared (negated : Bool) (ha : OnTexts R a a') :
    OnTexts R ("(" ++ a ++ (if negated then " = false)" else " = true)"))
      ("(" ++ a' ++ (if negated then " = false)" else " = true)")) := by
  have htext : ∀ a, "(" ++ a ++ (if negated then " = false)" else " = true)") =
      TextForm.operation.text [a, "=", if negated then "false" else "true"] := by
    intro a
    apply TextForm.text_eq
    cases negated <;> simp
  have hvalue : OnTexts R (if negated then "false" else "true")
      (if negated then "false" else "true") :=
    hR.self (by cases negated <;> decide)
  rw [htext, htext]
  exact hR.form TextForm.operation rfl (.cons ha (.cons (hR.self (by decide)) (.cons hvalue .nil)))

/-- Membership tests of related texts are related. -/
lemma among (negated : Bool) (ha : OnTexts R a a') (hb : OnTexts R b b') :
    OnTexts R (a ++ (if negated then " NOT IN (" else " IN (") ++ b ++ ")")
      (a' ++ (if negated then " NOT IN (" else " IN (") ++ b' ++ ")") := by
  have htext : ∀ a b, a ++ (if negated then " NOT IN (" else " IN (") ++ b ++ ")" =
      TextForm.among.text [a, if negated then "NOT IN" else "IN", b] := by
    intro a b
    apply TextForm.text_eq
    cases negated <;> simp
  have hwords : OnTexts R (if negated then "NOT IN" else "IN")
      (if negated then "NOT IN" else "IN") :=
    hR.self (by cases negated <;> decide)
  rw [htext, htext]
  exact hR.form TextForm.among rfl (.cons ha (.cons hwords (.cons hb .nil)))

lemma textTest? (method : String) (ha : OnTexts R a a') (hb : OnTexts R b b') :
    Option.Rel (OnTexts R) (Filter.textTest? method a b) (Filter.textTest? method a' b') := by
  have hsearch : ∀ a b, "INSTR(" ++ a ++ ", " ++ b ++ ") > 0" = TextForm.search.text [a, b] :=
    fun a b => TextForm.text_eq (by simp)
  have hargs : List.Forall₂ (OnTexts R) [a, b] [a', b'] := .cons ha (.cons hb .nil)
  have hcall : ∀ name : String, name.toList.all Template.isPlain →
      OnTexts R (name ++ "(" ++ a ++ ", " ++ b ++ ")")
        (name ++ "(" ++ a' ++ ", " ++ b' ++ ")") := by
    intro name hname
    have hlist : ∀ a b, name ++ "(" ++ a ++ ", " ++ b ++ ")" =
        name ++ "(" ++ Text.joined ", " [a, b] ++ ")" := by
      intro a b
      simp [Text.joined, String.append_assoc]
    rw [hlist, hlist]
    exact hR.call hname hargs
  unfold Filter.textTest?
  split_ifs
  · rw [hsearch, hsearch]
    exact .some (hR.form TextForm.search rfl hargs)
  · exact .some (hcall "STARTS_WITH" (by decide))
  · exact .some (hcall "ENDS_WITH" (by decide))
  · exact .none

end FillRelation

/-- Comparisons of records are related if those of their members are. -/
lemma FillRelation.composite (hR : FillRelation R) {write : String → String → String}
    (hwrite : ∀ {a b a' b' : String}, OnTexts R a a' → OnTexts R b b' →
      OnTexts R (write a b) (write a' b'))
    {left right left' right' : List (Except Fault String)}
    (hleft : List.Forall₂ (InStep (OnTexts R)) left left')
    (hright : List.Forall₂ (InStep (OnTexts R)) right right') :
    InStep (OnTexts R) (compositeText write left right) (compositeText write left' right') := by
  have hzip : List.Forall₂
      (fun p p' => InStep (OnTexts R) p.1 p'.1 ∧ InStep (OnTexts R) p.2 p'.2)
      (left.zip right) (left'.zip right') := by
    clear hwrite
    induction hleft generalizing right right' with
    | nil => exact .nil
    | cons hl _ ih =>
      cases hright with
      | nil => exact .nil
      | cons hr hright => exact .cons ⟨hl, hr⟩ (ih hright)
  have htext : ∀ text, "(" ++ text ++ ")" = TextForm.bracketed.text [text] := fun text =>
    TextForm.text_eq (by simp)
  unfold compositeText
  rw [← hleft.length_eq, ← hright.length_eq]
  split
  · exact .error _
  · refine InStep.bind (S := List.Forall₂ (OnTexts R)) (InStep.mapM (fun p p' hp => ?_) hzip) ?_
    · exact hp.1.bind fun a a' ha => hp.2.bind fun b b' hb => .ok (hwrite ha hb)
    · intro as bs hpairs
      have hand : OnTexts R ("(" ++ Text.joined " AND " as ++ ")")
          ("(" ++ Text.joined " AND " bs ++ ")") := by
        rw [htext, htext]
        refine hR.form TextForm.bracketed rfl (.cons (hR.joined_of (fun ha hb => ?_) hpairs) .nil)
        exact hR.bare "AND" " AND " (by decide) (by decide) ha hb
      -- a lone pair has no brackets
      cases hpairs with
      | nil => exact .ok hand
      | cons hp hrest =>
        cases hrest with
        | nil => exact .ok hp
        | cons _ _ => exact .ok hand

/-! ## Row filters -/

/-- Two alias tables under which the parts of an expression are written in step. -/
abbrev FilterInStep (R : List Char → List Char → Prop) (d : Dialect) (aliases aliases' : AliasTable)
    (nodes : List Expr) : Prop :=
  PartsInStep R d (Filter.memberText aliases) (Filter.memberText aliases') nodes

namespace Filter

variable {R : List Char → List Char → Prop} {d : Dialect} {aliases aliases' : AliasTable}

variable {c c' : CallTexts}

/-- Columns are written in step. -/
lemma columnText_related {nodes : List Expr} (h : FilterInStep R d aliases aliases' nodes)
    {m : Member} (hm : m.toExpr ∈ nodes) :
    OnTexts R (columnText aliases m) (columnText aliases' m) :=
  (h.member m hm _ _ (.error .joinShape)).related rfl rfl

/-- Member accesses are written in step. -/
lemma accessText_inStep (hR : FillRelation R) (place : Place) {m : Member}
    (hcolumn : OnTexts R (columnText aliases m) (columnText aliases' m))
    {target target' : Except Fault String} (htarget : InStep (OnTexts R) target target') :
    InStep (OnTexts R) (accessText aliases place m target)
      (accessText aliases' place m target') := by
  unfold accessText
  dsimp only
  refine .ite ?_ (.ite ?_ (.ite ?_ (.ite ?_ ?_)))
  · exact htarget.bind fun a b hab => .ok (hR.compared (place == .negated) hab)
  · exact .ok (hR.compared true hcolumn)
  · refine htarget.bind fun a b hab => .ok (hR.wrap place ?_)
    exact hR.nullTest (show nullTest? .notEqual = some _ from rfl) hab
  · exact .ok (hR.compared false hcolumn)
  · exact .ok (hR.wrap place hcolumn)

/-- Membership tests are found alike. -/
lemma membership?_inStep (h : CallTexts.Matches R c c') :
    Option.Rel (fun t t' => InStep (OnTexts R) t.1 t'.1 ∧ InStep (OnTexts R) t.2 t'.2)
      (membership? c) (membership? c') := by
  have hpair : ∀ (isCollection : Bool) {t t' v v' : Except Fault String}, InStep (OnTexts R) t t' →
      InStep (OnTexts R) v v' →
      Option.Rel (fun t t' => InStep (OnTexts R) t.1 t'.1 ∧ InStep (OnTexts R) t.2 t'.2)
        (if isCollection then some (t, v) else none)
        (if isCollection then some (t', v') else none) := by
    intro isCollection t t' v v' ht hv
    cases isCollection with
    | true => exact .some ⟨ht, hv⟩
    | false => exact .none
  obtain ⟨method, receiver, args, receiverText, argTexts⟩ := c
  obtain ⟨method', receiver', args', receiverText', argTexts'⟩ := c'
  obtain ⟨rfl, rfl, rfl, hreceiverText, hargTexts⟩ := h
  unfold membership?
  dsimp only
  split
  · exact .none
  · cases method'.binding with
    | onInstance =>
      cases receiver' with
      | none => exact .none
      | some collection =>
        cases hreceiverText with
        | none => exact .none
        | some htext =>
          rcases args' with _ | ⟨value, _ | ⟨_, _⟩⟩
          · exact .none
          · rcases hargTexts with _ | ⟨hvalue, _ | ⟨_, _⟩⟩
            · exact .none
            · exact hpair _ htext hvalue
            · exact .none
          · exact .none
    | onType | extending =>
      cases receiver' with
      | some _ => exact .none
      | none =>
        rcases args' with _ | ⟨collection, _ | ⟨value, _ | ⟨_, _⟩⟩⟩
        · exact .none
        · exact .none
        · rcases hargTexts with _ | ⟨htext, _ | ⟨hvalue, _ | ⟨_, _⟩⟩⟩
          · exact .none
          · exact .none
          · exact hpair _ htext hvalue
          · exact .none
        · exact .none

/-- Calls that are no membership tests are written in step. -/
lemma plainCallText_inStep (hR : FillRelation R) (h : CallTexts.Matches R c c')
    (hscalar : InStep (OnTexts R)
      (Expr.scalarCall d (memberText aliases) c.method c.receiver c.args)
      (Expr.scalarCall d (memberText aliases') c.method c.receiver c.args)) :
    InStep (OnTexts R) (plainCallText d aliases c) (plainCallText d aliases' c') := by
  obtain ⟨method, receiver, args, receiverText, argTexts⟩ := c
  obtain ⟨method', receiver', args', receiverText', argTexts'⟩ := c'
  obtain ⟨rfl, rfl, rfl, hreceiverText, hargTexts⟩ := h
  unfold plainCallText
  dsimp only
  cases method'.binding with
  | onType | extending => exact hscalar
  | onInstance =>
    cases receiver' with
    | none => exact hscalar
    | some receiver =>
      cases hreceiverText with
      | none => exact hscalar
      | some htarget =>
        rcases hargTexts with _ | ⟨hvalue, _ | ⟨_, _⟩⟩
        · exact hscalar
        · refine .ite ?_ hscalar
          refine htarget.bind fun a a' ha => hvalue.bind fun b b' hb => ?_
          generalize textTest? method'.name a b = x, textTest? method'.name a' b' = y,
            hR.textTest? method'.name ha hb = hxy
          cases hxy with
          | none => exact hscalar
          | some htext => exact .ok htext
        · exact hscalar

/-- Calls are written in step. -/
lemma callText_inStep (hR : FillRelation R) (place : Place) (h : CallTexts.Matches R c c')
    (hscalar : InStep (OnTexts R)
      (Expr.scalarCall d (memberText aliases) c.method c.receiver c.args)
      (Expr.scalarCall d (memberText aliases') c.method c.receiver c.args)) :
    InStep (OnTexts R) (callText d aliases place c) (callText d aliases' place c') := by
  unfold callText
  generalize membership? c = x, membership? c' = y, membership?_inStep h = hxy
  cases hxy with
  | none =>
    exact (plainCallText_inStep hR h hscalar).bind fun a b hab => .ok (hR.wrap place hab)
  | some htexts =>
    exact htexts.2.bind fun a a' ha => htexts.1.bind fun b b' hb => .ok (hR.among _ ha hb)

/-- A binary operation that is no null test, by its operands or their members. -/
def comparisonText (place : Place) (op : BinaryOp) (l r : Option (List (Except Fault String)))
    (left right : Except Fault String) : Except Fault String :=
  match op == .equal, l, r with
  | true, some l, some r => do
    return place.wrap (← compositeText (fun a b => a ++ " = " ++ b) l r)
  | _, _, _ => do return place.wrap (← operationText op left right)

/-- Operations are written in step. -/
lemma comparisonText_inStep (hR : FillRelation R) (place : Place) (op : BinaryOp)
    {l r l' r' : Option (List (Except Fault String))}
    {left right left' right' : Except Fault String}
    (hl : Option.Rel (List.Forall₂ (InStep (OnTexts R))) l l')
    (hr : Option.Rel (List.Forall₂ (InStep (OnTexts R))) r r')
    (hleft : InStep (OnTexts R) left left') (hright : InStep (OnTexts R) right right') :
    InStep (OnTexts R) (comparisonText place op l r left right)
      (comparisonText place op l' r' left' right') := by
  have hoperation :
      InStep (OnTexts R) (operationText op left right) (operationText op left' right') :=
    hleft.bind fun _ _ ha => hright.bind fun _ _ hb => .ok (hR.binary op ha hb)
  have hplain := hoperation.bind fun a b hab => InStep.ok (S := OnTexts R) (hR.wrap place hab)
  unfold comparisonText
  cases op == .equal with
  | false => exact hplain
  | true =>
    cases hl with
    | none => exact hplain
    | some hl =>
      cases hr with
      | none => exact hplain
      | some hr =>
        have hmembers := hR.composite (hR.bare "=" " = " (by decide) (by decide)) hl hr
        exact hmembers.bind fun a b hab => .ok (hR.wrap place hab)

end Filter

namespace Expr

mutual

/-- Alias tables in step on the parts of an expression are in step on it. -/
theorem filterText_inStep (hR : FillRelation R) (hd : d.catalog.WritesForms) (place : Place)
    (e : Expr) (h : FilterInStep R d aliases aliases' e.nodes) :
    InStep (OnTexts R) (e.filterText d aliases place) (e.filterText d aliases' place) := by
  match e with
  | .param p => exact .ok (hR.wrap place (h.param p (mem_singleton_self _)))
  | .member target name type isKey =>
    have hcolumn : OnTexts R (Filter.columnText aliases ⟨target, name, type, isKey⟩)
        (Filter.columnText aliases' ⟨target, name, type, isKey⟩) :=
      Filter.columnText_related h (mem_cons_self ..)
    exact Filter.accessText_inStep hR place hcolumn
      (filterText_inStep hR hd .value target h.tail)
  | .const value =>
    exact .ok (hR.wrap place (hR.constant value (h.string value (mem_singleton_self _))))
  | .call method receiver args =>
    have hreceiver := filterText?_inStep hR hd receiver h.tail.left
    have hargs := filterTexts_inStep hR hd args h.tail.right
    exact Filter.callText_inStep hR place ⟨rfl, rfl, rfl, hreceiver, hargs⟩
      (scalar_inStep hR hd (.call method receiver args) h)
  | .lambda _ body =>
    have hbody : ∀ place, InStep (OnTexts R) (body.filterText d aliases place)
        (body.filterText d aliases' place) := fun place =>
      filterText_inStep hR hd place body h.tail
    match place with
    | .value => exact hbody .value
    | .condition => exact hbody .condition
    | .negated => exact (hbody .condition).bind fun a b hab => .ok (hR.wrap .negated hab)
  | .unary op operand _ =>
    have hoperand : ∀ place, InStep (OnTexts R) (operand.filterText d aliases place)
        (operand.filterText d aliases' place) := fun place =>
      filterText_inStep hR hd place operand h.tail
    match op with
    | .not => exact (hoperand .negated).bind fun a b hab => .ok (hR.wrap place hab)
    | .convert => exact hoperand place
    | .negate =>
      exact (hoperand .value).bind fun a b hab => .ok (hR.wrap place (hR.unary .negate hab))
  | .binary op left right =>
    have hleft := fun place => filterText_inStep hR hd place left h.tail.left
    have hright := fun place => filterText_inStep hR hd place right h.tail.right
    have hleft? := compositeTexts?_inStep hR hd left h.tail.left
    have hright? := compositeTexts?_inStep hR hd right h.tail.right
    have hnull : ∀ {test : String}, Filter.nullTest? op = some test → ∀ {x y : Except Fault String},
        InStep (OnTexts R) x y →
        InStep (OnTexts R) (do return place.wrap ((← x) ++ test))
          (do return place.wrap ((← y) ++ test)) :=
      fun htest _ _ hxy => hxy.bind fun a b hab => .ok (hR.wrap place (hR.nullTest htest hab))
    have hplain := Filter.comparisonText_inStep hR place op hleft? hright?
      (hleft (Filter.operandPlace op)) (hright (Filter.operandPlace op))
    rw [filterText, filterText]
    cases htest : Filter.nullTest? op with
    | none => exact hplain
    | some test =>
      cases right.isNull with
      | true => exact hnull htest (hleft .value)
      | false =>
        cases left.isNull with
        | true => exact hnull htest (hright .value)
        | false => exact hplain
  | .cond test ifTrue ifFalse =>
    have htest := filterText_inStep hR hd .condition test h.tail.left
    have htrue := filterText_inStep hR hd .value ifTrue h.tail.right.left
    have hfalse := filterText_inStep hR hd .value ifFalse h.tail.right.right
    exact htest.bind fun t t' ht => htrue.bind fun a a' ha => hfalse.bind fun b b' hb =>
      .ok (hR.wrap place (hR.choice ht ha hb))
  | .record _ _ => exact .error _

/-- The same for the members of a record under conversions. -/
theorem compositeTexts?_inStep (hR : FillRelation R) (hd : d.catalog.WritesForms) (e : Expr)
    (h : FilterInStep R d aliases aliases' e.nodes) :
    Option.Rel (List.Forall₂ (InStep (OnTexts R))) (e.compositeTexts? d aliases)
      (e.compositeTexts? d aliases') := by
  match e with
  | .record _ members =>
    exact .some (filterMembers_inStep hR hd members h.tail)
  | .unary .convert operand _ =>
    exact compositeTexts?_inStep hR hd operand h.tail
  | .unary .not _ _ | .unary .negate _ _ | .param _ | .member _ _ _ _ | .const _ | .call _ _ _
  | .lambda _ _ | .binary _ _ _ | .cond _ _ _ => exact .none

/-- The same for a receiver. -/
theorem filterText?_inStep (hR : FillRelation R) (hd : d.catalog.WritesForms) (e : Option Expr)
    (h : FilterInStep R d aliases aliases' (nodesOf? e)) :
    Option.Rel (InStep (OnTexts R)) (filterText? d aliases e) (filterText? d aliases' e) := by
  match e with
  | none => exact .none
  | some e => exact .some (filterText_inStep hR hd .value e h)

/-- The same for arguments. -/
theorem filterTexts_inStep (hR : FillRelation R) (hd : d.catalog.WritesForms) (es : List Expr)
    (h : FilterInStep R d aliases aliases' (nodesOf es)) :
    List.Forall₂ (InStep (OnTexts R)) (filterTexts d aliases es) (filterTexts d aliases' es) := by
  match es with
  | [] => exact .nil
  | e :: rest =>
    exact .cons (filterText_inStep hR hd .value e h.left)
      (filterTexts_inStep hR hd rest h.right)

/-- The same for the members of a record. -/
theorem filterMembers_inStep (hR : FillRelation R) (hd : d.catalog.WritesForms)
    (members : List (String × Expr))
    (h : FilterInStep R d aliases aliases' (nodesOfMembers members)) :
    List.Forall₂ (InStep (OnTexts R)) (filterMembers d aliases members)
      (filterMembers d aliases' members) := by
  match members with
  | [] => exact .nil
  | (_, e) :: rest =>
    exact .cons (filterText_inStep hR hd .value e h.left)
      (filterMembers_inStep hR hd rest h.right)

end

end Expr

/-- The body of a WHERE clause is the text of the predicate as a condition. -/
lemma Lambda.filterText_of_filterBody {predicate : Lambda} {text : String}
    (h : predicate.filterBody d aliases = .ok text) :
    predicate.body.filterText d aliases .condition = .ok text := by
  obtain ⟨_, -, h⟩ := ok_of_bind h
  dsimp only at h
  split at h
  · cases h
  · obtain ⟨body, hbody, h⟩ := ok_of_bind h
    rw [hbody, eq_of_nonEmpty h]

/-- Alias tables in step on the parts of a predicate write related bodies. -/
theorem Lambda.filterBody_related (hR : FillRelation R) (hd : d.catalog.WritesForms)
    {predicate : Lambda} (h : FilterInStep R d aliases aliases' predicate.body.nodes) {a b : String}
    (ha : predicate.filterBody d aliases = .ok a) (hb : predicate.filterBody d aliases' = .ok b) :
    OnTexts R a b :=
  (predicate.body.filterText_inStep hR hd .condition h).related (filterText_of_filterBody ha)
    (filterText_of_filterBody hb)

/-! ## Grouping keys -/

/-- Two styles are in step on the parts of an expression with the given nodes. -/
structure StylesInStep (R : List Char → List Char → Prop) (style style' : Style)
    (nodes : List Expr) : Prop where
  member : ∀ m : Member, m.toExpr ∈ nodes → InStep (OnTexts R) (style.member m) (style'.member m)
  call : ∀ method receiver args, (∀ e ∈ (Expr.call method receiver args).nodes, e ∈ nodes) →
    InStep (OnTexts R) (style.call method receiver args) (style'.call method receiver args)
  param : ∀ p, Expr.param p ∈ nodes → OnTexts R (style.param p) (style'.param p)
  string : ∀ value, Expr.const value ∈ nodes → ∀ s ∈ value.strings,
    OnTexts R (Constant.quoted s) (Constant.quoted s)
  binary : ∀ (op : BinaryOp) {a b a' b' : String}, OnTexts R a a' → OnTexts R b b' →
    OnTexts R (style.binary op a b) (style'.binary op a' b')
  record : style'.record = style.record

/-- Among the nodes of an expression are those of its parts. -/
lemma StylesInStep.mono {style style' : Style} {nodes nodes' : List Expr}
    (h : StylesInStep R style style' nodes) (hsub : ∀ e ∈ nodes', e ∈ nodes) :
    StylesInStep R style style' nodes' where
  member m hm := h.member m (hsub _ hm)
  call method receiver args hcall := h.call method receiver args fun e he => hsub e (hcall e he)
  param p hp := h.param p (hsub _ hp)
  string value hvalue := h.string value (hsub _ hvalue)
  binary := h.binary
  record := h.record

/-- Styles in step on the parts of an expression are in step on it. -/
theorem Expr.styled_inStep (hR : FillRelation R) {style style' : Style} (e : Expr)
    (h : StylesInStep R style style' e.nodes) :
    InStep (OnTexts R) (e.styled style) (e.styled style') := by
  match e with
  | .param p => exact .ok (h.param p (mem_singleton_self _))
  | .member target name type isKey =>
    exact h.member ⟨target, name, type, isKey⟩ (mem_cons_self ..)
  | .const value => exact .ok (hR.constant value (h.string value (mem_singleton_self _)))
  | .call method receiver args => exact h.call method receiver args fun _ he => he
  | .lambda _ body => exact styled_inStep hR body (h.mono fun e he => mem_cons_of_mem _ he)
  | .unary op operand _ =>
    have hoperand := styled_inStep hR operand (h.mono fun e he => mem_cons_of_mem _ he)
    exact hoperand.bind fun a b hab => .ok (hR.unary op hab)
  | .binary op left right =>
    have hleft := styled_inStep hR left
      (h.mono fun e he => mem_cons_of_mem _ (mem_append_left _ he))
    have hright := styled_inStep hR right
      (h.mono fun e he => mem_cons_of_mem _ (mem_append_right _ he))
    exact hleft.bind fun a a' ha => hright.bind fun b b' hb => .ok (h.binary op ha hb)
  | .cond test ifTrue ifFalse =>
    have htest := styled_inStep hR test
      (h.mono fun e he => mem_cons_of_mem _ (mem_append_left _ he))
    have htrue := styled_inStep hR ifTrue (h.mono fun e he =>
      mem_cons_of_mem _ (mem_append_right _ (mem_append_left _ he)))
    have hfalse := styled_inStep hR ifFalse (h.mono fun e he =>
      mem_cons_of_mem _ (mem_append_right _ (mem_append_right _ he)))
    exact htest.bind fun t t' ht => htrue.bind fun a a' ha => hfalse.bind fun b b' hb =>
      .ok (hR.choice ht ha hb)
  | .record _ _ =>
    rw [styled, styled, h.record]
    exact .error _

/-- Operations without brackets keep texts related. -/
lemma FillRelation.bareText (hR : FillRelation R) (op : BinaryOp) {a b a' b' : String}
    (ha : OnTexts R a a') (hb : OnTexts R b b') :
    OnTexts R (op.bareText a b) (op.bareText a' b') := by
  by_cases hop : op = .coalesce
  · rw [hop]
    exact hR.binary .coalesce ha hb
  · have hspaced : ∀ a b, op.bareText a b = a ++ (" " ++ op.groupedSymbol ++ " ") ++ b := by
      intro a b
      have hbare : op.bareText a b = a ++ " " ++ op.groupedSymbol ++ " " ++ b := by
        cases op
        case coalesce => exact absurd rfl hop
        all_goals rfl
      rw [hbare]
      simp only [String.append_assoc]
    rw [hspaced, hspaced]
    refine hR.bare op.groupedSymbol _ (by cases op <;> decide) ?_ ha hb
    simp

lemma Expr.mem_nodes_of_unwrap {x : Expr} (h : x ∈ e.unwrap.nodes) : x ∈ e.nodes := by
  fun_induction unwrap e with
  | case1 operand type ih => exact mem_cons_of_mem _ (ih h)
  | case2 => exact h

/-- Two alias tables write the parts of a key with the given nodes in step. -/
abbrev KeysInStep (R : List Char → List Char → Prop) (d : Dialect) (aliases aliases' : AliasTable)
    (nodes : List Expr) : Prop :=
  PartsInStep R d (GroupKeys.memberText aliases) (GroupKeys.memberText aliases') nodes

namespace GroupKeys

variable {R : List Char → List Char → Prop} {d : Dialect} {aliases aliases' : AliasTable}

/-- Keys that are no records are written in step. -/
lemma styled_inStep (hR : FillRelation R) (hd : d.catalog.WritesForms)
    (h : KeysInStep R d aliases aliases' e.nodes) :
    InStep (OnTexts R) (e.styled (style d aliases)) (e.styled (style d aliases')) := by
  refine e.styled_inStep hR ⟨fun m hm => ?_, fun method receiver args hsub => ?_, h.param, h.string,
    hR.bareText, rfl⟩
  · exact h.member m hm _ _ (.error .recordInKey)
  · exact Expr.scalar_inStep hR hd (.call method receiver args) (h.mono hsub)

/-- Members of a key record that are no records are written in step. -/
lemma memberKey_inStep (hR : FillRelation R) (hd : d.catalog.WritesForms)
    (h : KeysInStep R d aliases aliases' e.nodes) :
    InStep (OnTexts R) (memberKey d aliases e) (memberKey d aliases' e) := by
  have hstyled := styled_inStep hR hd h
  unfold memberKey
  cases e.unwrap with
  | call method receiver args => exact .ite hstyled (.error _)
  | const value => exact .error _
  | _ => exact hstyled

mutual

/-- The keys of a member of a key record are written in step. -/
theorem ofMember_inStep (hR : FillRelation R) (hd : d.catalog.WritesForms) (e : Expr)
    (h : KeysInStep R d aliases aliases' e.nodes) :
    InStep (List.Forall₂ (OnTexts R)) (ofMember d aliases e) (ofMember d aliases' e) := by
  have hkey : InStep (List.Forall₂ (OnTexts R)) (do return [← memberKey d aliases e])
      (do return [← memberKey d aliases' e]) :=
    (memberKey_inStep hR hd h).bind fun a b hab => .ok (.cons hab .nil)
  match e with
  | .record _ members =>
    exact ofMembers_inStep hR hd members h.tail
  | .unary .convert operand _ =>
    exact ofMember_inStep hR hd operand h.tail
  | .unary .not _ _ | .unary .negate _ _ | .param _ | .member _ _ _ _ | .const _ | .call _ _ _
  | .lambda _ _ | .binary _ _ _ | .cond _ _ _ => exact hkey

/-- The keys of the members of a record are written in step. -/
theorem ofMembers_inStep (hR : FillRelation R) (hd : d.catalog.WritesForms)
    (members : List (String × Expr))
    (h : KeysInStep R d aliases aliases' (Expr.nodesOfMembers members)) :
    InStep (List.Forall₂ (OnTexts R)) (ofMembers d aliases members)
      (ofMembers d aliases' members) := by
  match members with
  | [] => exact .ok .nil
  | (_, e) :: rest =>
    have hfirst := ofMember_inStep hR hd e h.left
    have hrest := ofMembers_inStep hR hd rest h.right
    exact hfirst.bind fun a b hab => hrest.bind fun as bs habs => .ok (rel_append hab habs)

end

/-- The keys of a key expression are written in step. -/
theorem ofExpr_inStep (hR : FillRelation R) (hd : d.catalog.WritesForms)
    (h : KeysInStep R d aliases aliases' e.nodes) :
    InStep (List.Forall₂ (OnTexts R)) (ofExpr d aliases e) (ofExpr d aliases' e) := by
  have hunwrap := h.mono fun x hx => Expr.mem_nodes_of_unwrap hx
  have hkey := (styled_inStep hR hd hunwrap).bind fun a b hab =>
    InStep.ok (S := List.Forall₂ (OnTexts R)) (.cons hab .nil)
  unfold ofExpr
  generalize e.unwrap = u at hunwrap hkey
  cases u with
  | record typeName members =>
    exact ofMembers_inStep hR hd members hunwrap.tail
  | call method receiver args => exact .ite hkey (.error _)
  | const value => exact .error _
  | _ => exact hkey

end GroupKeys

/-- Alias tables in step on the parts of a key selector write related bodies. -/
theorem Lambda.groupBody_related (hR : FillRelation R) (hd : d.catalog.WritesForms)
    {selector : Lambda} (h : KeysInStep R d aliases aliases' selector.body.nodes) {limit : Nat}
    {a b : String} (ha : selector.groupBody d aliases limit = .ok a)
    (hb : selector.groupBody d aliases' limit = .ok b) : OnTexts R a b := by
  have hkeys : ∀ {aliases : AliasTable} {a : String}, selector.groupBody d aliases limit = .ok a →
      ∃ keys, GroupKeys.ofExpr d aliases selector.body = .ok keys ∧ Text.joined ", " keys = a := by
    intro aliases a ha
    obtain ⟨keys, hkeys, ha⟩ := ok_of_bind ha
    obtain ⟨_, -, hkeys⟩ := ok_of_bind hkeys
    dsimp only at hkeys
    split at hkeys
    · cases hkeys
    · obtain ⟨keys', hkeys', hkeys⟩ := ok_of_bind hkeys
      split at hkeys
      · cases hkeys
      · split at hkeys
        · cases hkeys
        · cases hkeys
          exact ⟨keys, hkeys', eq_of_nonEmpty ha⟩
  obtain ⟨as, has, rfl⟩ := hkeys ha
  obtain ⟨bs, hbs, rfl⟩ := hkeys hb
  exact hR.joined ((GroupKeys.ofExpr_inStep hR hd h).related has hbs)

end StreamQuery
