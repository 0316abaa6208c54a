import Mathlib.Algebra.Free
import Mathlib.Data.List.Forall2
import StreamQuery.Clause.GroupKeys
import StreamQuery.Proofs.Identifiers
import StreamQuery.Proofs.KeyTerms

/-!
# The values of grouping keys

A grouping key is an expression over the rows of the parameters of a selector, and it is written
without brackets.  This module gives a value to both, the expression and the text as it is read, for
every meaning of arithmetic and for all rows.

Little is asked of a meaning: a negative number is the negative of a number, and the sign of a
product can be moved to its first factor.  That sums can be regrouped is not asked.  A member is
looked up in the row of its parameter, along its path; a column of the text is looked up by its
name, in the row of a parameter whose alias stands in front of it, or of any parameter if there is
no alias.

`Lambda.groupKeys_value_iff` says which keys keep their value.
-/

namespace StreamQuery

open List

/-! ## Meanings -/

/-- A signed numeral is a minus sign and an unsigned one. -/
lemma eq_cons_of_isNumeral {cs : List Char} (h : isNumeral cs) (hsigned : isUnsigned cs = false) :
    cs = '-' :: cs.tail ∧ isUnsigned cs.tail := by
  unfold isNumeral at h
  split at h
  · exact ⟨rfl, h⟩
  · rw [h] at hsigned
    cases hsigned

namespace Literal

/-- Behind the sign of a negative numeral is an unsigned one. -/
lemma isUnsigned_tail {n : String} (h : isNumeral n.toList)
    (hsigned : ¬ StreamQuery.isUnsigned n.toList) :
    StreamQuery.isUnsigned (String.ofList n.toList.tail).toList := by
  rw [String.toList_ofList]
  exact (eq_cons_of_isNumeral h (Bool.eq_false_iff.2 hsigned)).2

/-- What stands behind the sign of a negative numeral is a numeral. -/
lemma isNumeral_tail {n : String} (h : isNumeral n.toList)
    (hsigned : ¬ StreamQuery.isUnsigned n.toList) :
    isNumeral (String.ofList n.toList.tail).toList :=
  isNumeral_of_isUnsigned (isUnsigned_tail h hsigned)

@[simp] lemma isUnsigned_null : null.isUnsigned := rfl

@[simp] lemma isUnsigned_bool (value : Bool) : (bool value).isUnsigned := rfl

@[simp] lemma isUnsigned_string (value : String) : (string value).isUnsigned := rfl

/-- A literal without its sign. -/
def absolute : Literal → { v : Literal // v.isUnsigned = true }
  | .null => ⟨.null, isUnsigned_null⟩
  | .bool value => ⟨.bool value, isUnsigned_bool value⟩
  | .string value => ⟨.string value, isUnsigned_string value⟩
  | .number ⟨n, hn⟩ =>
    if h : StreamQuery.isUnsigned n.toList = true then ⟨.number ⟨n, hn⟩, h⟩
    else ⟨.number ⟨String.ofList n.toList.tail, isNumeral_tail hn h⟩, isUnsigned_tail hn h⟩

/-- The term of a literal. -/
def term (v : Literal) : KeySql :=
  if v.isUnsigned then .literal v.absolute else .negate (.literal v.absolute)

lemma absolute_of_isUnsigned {v : Literal} (h : v.isUnsigned) : v.absolute = ⟨v, h⟩ := by
  cases v with
  | number n => exact dif_pos h
  | _ => rfl

/-- The term of a literal has its text. -/
lemma text_term (v : Literal) : v.term.text = v.sql := by
  cases h : v.isUnsigned with
  | true =>
    rw [term, h, if_pos rfl, absolute_of_isUnsigned h]
    rfl
  | false =>
    cases v with
    | number n =>
      have hunsigned : ¬ StreamQuery.isUnsigned n.1.toList := by
        rw [Bool.not_eq_true]
        exact h
      have hcons := (eq_cons_of_isNumeral n.2 h).1
      have habsolute : (number n).absolute.1.sql = String.ofList n.1.toList.tail := by
        rw [absolute, dif_neg hunsigned]
        rfl
      rw [term, h, if_neg Bool.false_ne_true, KeySql.text, KeySql.text, habsolute]
      have hchars : (String.ofList n.1.toList.tail).toList = n.1.toList.tail := String.toList_ofList
      apply String.toList_inj.1
      rw [String.toList_append, hchars]
      exact hcons.symm
    | _ => cases h

end Literal

/-- The meaning of the parts of a key over values of any kind. -/
structure KeyMeaning (V : Type) where
  literal : Literal → V
  negate : V → V
  operate : Arith → V → V → V
  /-- The first value unless it is null. -/
  coalesce : V → V → V

/-- What all kinds of numbers have in common. -/
structure KeyMeaning.IsLawful {V : Type} (m : KeyMeaning V) : Prop where
  /-- A negative number is the negative of a number. -/
  literal_negative : ∀ v : Literal, v.isUnsigned = false →
    m.literal v = m.negate (m.literal v.absolute.1)
  /-- The negative of a product has the negative of its first factor. -/
  negate_product : ∀ op : Arith, op.isProduct = true → ∀ a b,
    m.negate (m.operate op a b) = m.operate op (m.negate a) b

namespace KeySql

variable {V : Type}

/-- The value of a term on a row, which is given by the values of its columns. -/
def value (m : KeyMeaning V) (row : String → V) : KeySql → V
  | .column name => row name
  | .literal v => m.literal v.1
  | .negate x => m.negate (x.value m row)
  | .binary op l r => m.operate op (l.value m row) (r.value m row)
  | .coalesce l r => m.coalesce (l.value m row) (r.value m row)

/-- The meaning of the writer: every part is kept as it is. -/
def meaning : KeyMeaning KeySql where
  literal := Literal.term
  negate := .negate
  operate := .binary
  coalesce := .coalesce

/-- The meaning of the reader: signs are moved to first factors. -/
def normal : KeyMeaning KeySql where
  literal := Literal.term
  negate := signed
  operate := .binary
  coalesce := .coalesce

lemma term_val (v : { v : Literal // v.isUnsigned = true }) : v.1.term = .literal v := by
  rw [Literal.term, v.2, if_pos rfl, Literal.absolute_of_isUnsigned v.2]

lemma isLawful_normal : normal.IsLawful := by
  constructor
  · intro v hv
    change v.term = v.absolute.1.term.signed
    rw [term_val, Literal.term, hv, if_neg Bool.false_ne_true]
    rfl
  · intro op hop a b
    change signed (.binary op a b) = .binary op a.signed b
    rw [signed, if_pos hop]

/-- With one name for all columns, a term of the same shape is read. -/
lemma shape_value_normal (t : KeySql) :
    (t.value normal fun _ => .column "").isSum = t.isSum ∧
      (t.value normal fun _ => .column "").isFactor = t.isFactor ∧
      (t.value normal fun _ => .column "").isShaped = t.isGrouped := by
  induction t with
  | column name => exact ⟨rfl, rfl, rfl⟩
  | literal v =>
    rw [value, show normal.literal v.1 = .literal v from term_val v]
    exact ⟨rfl, rfl, rfl⟩
  | negate x ih =>
    rw [value, show normal.negate = signed from rfl, isSum_signed, isFactor_signed,
      isShaped_signed, ih.1, ih.2.1, ih.2.2]
    exact ⟨rfl, rfl, rfl⟩
  | binary op l r ihl ihr =>
    rw [value, show normal.operate = .binary from rfl, isSum, isFactor, isShaped, ihl.1, ihl.2.2,
      ihr.1, ihr.2.1, ihr.2.2]
    exact ⟨rfl, rfl, rfl⟩
  | coalesce l r ihl ihr =>
    refine ⟨rfl, rfl, ?_⟩
    rw [value, show normal.coalesce = .coalesce from rfl, isShaped, ihl.2.2, ihr.2.2]
    rfl

variable {m : KeyMeaning V} (hm : m.IsLawful) (row : String → V)

include hm

/-- A sign in front is a negation of the value. -/
lemma value_signed (x : KeySql) : x.signed.value m row = m.negate (x.value m row) := by
  induction x with
  | binary op l r ihl _ =>
    cases hop : op.isProduct with
    | true => rw [signed, if_pos hop, value, ihl, value, hm.negate_product op hop]
    | false =>
      rw [signed, hop, if_neg Bool.false_ne_true]
      rfl
  | _ => rfl

/-- Moving signs keeps the value of a term. -/
lemma value_norm (x : KeySql) : x.norm.value m row = x.value m row := by
  induction x with
  | column name => rfl
  | literal v => rfl
  | negate x ih => rw [norm, value_signed hm, ih, value]
  | binary op l r ihl ihr => rw [norm, value, ihl, ihr, value]
  | coalesce l r ihl ihr => rw [norm, value, ihl, ihr, value]

/-- The term of a literal has its value. -/
lemma value_term (v : Literal) : v.term.value m row = m.literal v := by
  cases h : v.isUnsigned with
  | true => rw [Literal.term, h, if_pos rfl, Literal.absolute_of_isUnsigned h, value]
  | false =>
    rw [Literal.term, h, if_neg Bool.false_ne_true, value, value, hm.literal_negative v h]

end KeySql

/-! ## The values of key expressions -/

/-- The meaning of a binary operator, if it is one of arithmetic or coalescence. -/
def KeyMeaning.binary? {V : Type} (m : KeyMeaning V) : BinaryOp → Option (V → V → V)
  | .add => some (m.operate .add)
  | .subtract => some (m.operate .subtract)
  | .multiply => some (m.operate .multiply)
  | .divide => some (m.operate .divide)
  | .modulo => some (m.operate .modulo)
  | .coalesce => some m.coalesce
  | _ => none

/-- The operators with a meaning are the same for all of them. -/
lemma KeyMeaning.binary?_eq {V : Type} (m : KeyMeaning V) (row : String → V) (op : BinaryOp) :
    (m.binary? op = none ∧ KeySql.meaning.binary? op = none) ∨
      ∃ f g, m.binary? op = some f ∧ KeySql.meaning.binary? op = some g ∧
        ∀ l r, (g l r).value m row = f (l.value m row) (r.value m row) := by
  cases op
  case add | subtract | multiply | divide | modulo | coalesce =>
    exact .inr ⟨_, _, rfl, rfl, fun _ _ => rfl⟩
  all_goals exact .inl ⟨rfl, rfl⟩

/-- The writer writes an operation as its term. -/
lemma BinaryOp.bareText_eq {op : BinaryOp} {f : KeySql → KeySql → KeySql}
    (h : KeySql.meaning.binary? op = some f) (l r : KeySql) :
    op.bareText l.text r.text = (f l r).text := by
  cases op <;> cases h <;> rfl

namespace Expr

section

variable {V : Type} (m : KeyMeaning V) (column : Member → V)

/-- The value of an expression over the columns of rows, if it is made of columns and constants by
arithmetic, coalescence and conversions. -/
def keyValue? : Expr → Option V
  | .member target name type isKey => some (column ⟨target, name, type, isKey⟩)
  | .const value => value.literal?.map m.literal
  | .unary .convert operand _ => keyValue? operand
  | .unary .negate operand _ => (keyValue? operand).map m.negate
  | .binary op left right =>
    (m.binary? op).bind fun f => (keyValue? left).bind fun l => (keyValue? right).map (f l)
  | _ => none

end

/-- The term of an expression over the columns of rows. -/
def keyTerm? (aliases : AliasTable) : Expr → Option KeySql :=
  keyValue? KeySql.meaning fun m => .column (GroupKeys.columnText aliases m)

/-- The members that an expression over the columns of rows is made of. -/
def keyMembers : Expr → List Member
  | .member target name type isKey => [⟨target, name, type, isKey⟩]
  | .unary _ operand _ => operand.keyMembers
  | .binary _ left right => left.keyMembers ++ right.keyMembers
  | _ => []

/-- The value of an expression is that of its term, if members have the values of columns. -/
lemma keyValue?_eq {V : Type} {m : KeyMeaning V} (hm : m.IsLawful) {row : String → V}
    {aliases : AliasTable} {column : Member → V} (e : Expr)
    (hcolumn : ∀ x ∈ e.keyMembers, column x = row (GroupKeys.columnText aliases x)) :
    e.keyValue? m column = (e.keyTerm? aliases).map (KeySql.value m row) := by
  cases e with
  | member target name type isKey => exact congrArg some (hcolumn _ (mem_singleton_self _))
  | const value =>
    rw [keyTerm?, keyValue?, keyValue?, Option.map_map]
    cases value.literal? with
    | none => rfl
    | some v => exact congrArg some (KeySql.value_term hm row v).symm
  | unary op operand type =>
    have ih := keyValue?_eq hm operand hcolumn
    cases op with
    | convert => exact ih
    | negate =>
      unfold keyTerm? at ih ⊢
      rw [keyValue?, keyValue?, ih, Option.map_map, Option.map_map]
      rfl
    | not => rfl
  | binary op left right =>
    have ihl := keyValue?_eq hm left fun x hx => hcolumn x (mem_append_left _ hx)
    have ihr := keyValue?_eq hm right fun x hx => hcolumn x (mem_append_right _ hx)
    unfold keyTerm? at ihl ihr ⊢
    rw [keyValue?, keyValue?, ihl, ihr]
    generalize left.keyValue? KeySql.meaning _ = l
    generalize right.keyValue? KeySql.meaning _ = r
    rcases m.binary?_eq row op with ⟨hf, hg⟩ | ⟨f, g, hf, hg, hvalue⟩
    · rw [hf, hg]
      rfl
    · rw [hf, hg]
      cases l with
      | none => rfl
      | some l =>
        cases r with
        | none => rfl
        | some r => exact congrArg some (hvalue l r).symm
  | _ => rfl

/-- A key that is a term is written as the term. -/
lemma styled_of_keyTerm? (d : Dialect) {aliases : AliasTable} {e : Expr} {t : KeySql}
    (h : e.keyTerm? aliases = some t) : e.styled (GroupKeys.style d aliases) = .ok t.text := by
  unfold keyTerm? at h
  cases e with
  | member target name type isKey =>
    cases h
    rfl
  | const value =>
    rw [keyValue?, Option.map_eq_some_iff] at h
    obtain ⟨v, hv, rfl⟩ := h
    rw [styled, Constant.sql_of_literal? hv]
    exact congrArg Except.ok (Literal.text_term v).symm
  | unary op operand type =>
    cases op with
    | convert =>
      rw [keyValue?] at h
      rw [styled, styled_of_keyTerm? d h]
      rfl
    | negate =>
      rw [keyValue?, Option.map_eq_some_iff] at h
      obtain ⟨x, hx, rfl⟩ := h
      rw [styled, styled_of_keyTerm? d hx]
      rfl
    | not => cases h
  | binary op left right =>
    rw [keyValue?, Option.bind_eq_some_iff] at h
    obtain ⟨f, hf, h⟩ := h
    obtain ⟨l, hl, h⟩ := Option.bind_eq_some_iff.1 h
    obtain ⟨r, hr, rfl⟩ := Option.map_eq_some_iff.1 h
    rw [styled, styled_of_keyTerm? d hl, styled_of_keyTerm? d hr]
    exact congrArg Except.ok (BinaryOp.bareText_eq hf l r)
  | _ => cases h

mutual

/-- The expressions that keys are made of: the members of a key record, with those of nested records
in their place, or else the expression itself. -/
def keyParts : Expr → List Expr
  | .record _ members => keyPartsOf members
  | .unary .convert operand _ => operand.keyParts
  | e => [e]

/-- The expressions of the members of a key record. -/
def keyPartsOf : List (String × Expr) → List Expr
  | [] => []
  | (_, e) :: rest => e.keyParts ++ keyPartsOf rest

end

lemma keyParts_unwrap (e : Expr) : e.unwrap.keyParts = e.keyParts := by
  cases e with
  | unary op operand type =>
    cases op with
    | convert =>
      rw [unwrap, keyParts]
      exact keyParts_unwrap operand
    | _ => rfl
  | _ => rfl

lemma unwrap_ne_convert (e operand : Expr) (type : DataType) :
    e.unwrap ≠ .unary .convert operand type := by
  cases e with
  | unary op operand' type' =>
    cases op with
    | convert => exact unwrap_ne_convert operand' operand type
    | _ => exact fun h => by cases h
  | _ => exact fun h => by cases h

end Expr

/-! ## Keys and their expressions -/

namespace GroupKeys

variable {d : Dialect} {aliases : AliasTable}

/-- A key is written for an expression in the style of keys. -/
abbrev IsKeyOf (d : Dialect) (aliases : AliasTable) (e : Expr) (key : String) : Prop :=
  e.styled (style d aliases) = .ok key

lemma isKeyOf_of_memberKey {e : Expr} {key : String} (h : memberKey d aliases e = .ok key) :
    IsKeyOf d aliases e key := by
  unfold memberKey at h
  split at h
  · split_ifs at h
    exact h
  · cases h
  · exact h

mutual

lemma keys_of_ofMember (e : Expr) {keys : List String} (h : ofMember d aliases e = .ok keys) :
    List.Forall₂ (IsKeyOf d aliases) e.keyParts keys := by
  have hone : ∀ e' : Expr, ofMember d aliases e' = (do return [← memberKey d aliases e']) →
      ofMember d aliases e' = .ok keys → List.Forall₂ (IsKeyOf d aliases) [e'] keys := by
    intro e' heq hkeys
    rw [heq] at hkeys
    obtain ⟨key, hkey, hkeys⟩ := ok_of_bind hkeys
    cases hkeys
    exact .cons (isKeyOf_of_memberKey hkey) .nil
  cases e with
  | record typeName members =>
    rw [ofMember] at h
    exact keys_of_ofMembers members h
  | unary op operand type =>
    cases op with
    | convert =>
      rw [ofMember] at h
      exact keys_of_ofMember operand h
    | not => exact hone _ (by rw [ofMember] <;> simp) h
    | negate => exact hone _ (by rw [ofMember] <;> simp) h
  | _ => exact hone _ (by rw [ofMember] <;> simp) h

/-- The keys of a key record are those of its parts, one by one. -/
lemma keys_of_ofMembers (members : List (String × Expr)) {keys : List String}
    (h : ofMembers d aliases members = .ok keys) :
    List.Forall₂ (IsKeyOf d aliases) (Expr.keyPartsOf members) keys := by
  cases members with
  | nil =>
    cases h
    exact .nil
  | cons member rest =>
    obtain ⟨name, e⟩ := member
    rw [ofMembers] at h
    obtain ⟨first, hfirst, h⟩ := ok_of_bind h
    obtain ⟨more, hmore, h⟩ := ok_of_bind h
    cases h
    exact rel_append (keys_of_ofMember e hfirst) (keys_of_ofMembers rest hmore)

end

/-- The keys of a selector are those of its parts. -/
lemma keys_of_ofExpr {e : Expr} {keys : List String} (h : ofExpr d aliases e = .ok keys) :
    List.Forall₂ (IsKeyOf d aliases) e.keyParts keys := by
  rw [← Expr.keyParts_unwrap]
  have hunwrap : ∀ operand type, e.unwrap ≠ .unary .convert operand type := e.unwrap_ne_convert
  unfold ofExpr at h
  cases hunder : e.unwrap with
  | record typeName members =>
    rw [hunder] at h
    exact keys_of_ofMembers members h
  | call method receiver args =>
    rw [hunder] at h
    simp only at h
    split_ifs at h
    obtain ⟨key, hkey, h⟩ := ok_of_bind h
    cases h
    exact .cons hkey .nil
  | const value =>
    rw [hunder] at h
    cases h
  | unary op operand type =>
    rw [hunder] at h
    obtain ⟨key, hkey, h⟩ := ok_of_bind h
    cases h
    cases op with
    | convert => exact absurd hunder (hunwrap operand type)
    | _ => exact .cons hkey .nil
  | _ =>
    rw [hunder] at h
    obtain ⟨key, hkey, h⟩ := ok_of_bind h
    cases h
    exact .cons hkey .nil

end GroupKeys

/-- The keys of a selector are those of its parts, one by one. -/
lemma Lambda.isKeyOf_of_groupKeys {selector : Lambda} {d : Dialect} {aliases : AliasTable}
    {limit : Nat} {keys : List String} (h : selector.groupKeys d aliases limit = .ok keys) :
    List.Forall₂ (GroupKeys.IsKeyOf d aliases) selector.body.keyParts keys := by
  unfold groupKeys at h
  obtain ⟨_, -, h⟩ := ok_of_bind h
  dsimp only at h
  split_ifs at h
  · cases h
  · obtain ⟨written, hwritten, h⟩ := ok_of_bind h
    split_ifs at h <;> cases h
    exact GroupKeys.keys_of_ofExpr hwritten

/-! ## Rows -/

/-- The place of a value in the rows of parameters: the name of a parameter and a member path, in
identifier spelling.  A conversion keeps the place. -/
def Expr.place? : Expr → Option (String × List String)
  | .param p => some (p.name, [])
  | .member target name _ _ => target.place?.map fun q => (q.1, q.2 ++ [Text.identifier name])
  | .unary .convert operand _ => operand.place?
  | _ => none

/-- The rows of the parameters of a selector, as values by places.  A member that is not read from a
parameter has no place; its value may be any. -/
def KeyRows (V : Type) : Type :=
  Option (String × List String) → V

/-- The parameters of the alias of a written column; all if there is none. -/
def columnOwners (params : List Param) (aliases : AliasTable) (column : List Char) : List Param :=
  match Text.splitLast? ['.'] column with
  | some (aliasName, _) =>
    params.filter fun p => aliases.alias? p.name == some (String.ofList aliasName)
  | none => params

/-- The place of a written column in the row of a parameter. -/
def columnPlace (p : Param) (column : List Char) : String × List String :=
  (p.name, [Text.identifier (String.ofList (Text.afterLast ['.'] column))])

/-- Each written column has its value in the row of an owner. -/
def KeyRows.Gives {V : Type} (rows : KeyRows V) (params : List Param) (aliases : AliasTable)
    (row : String → V) : Prop :=
  ∀ column : String, columnOwners params aliases column.toList ≠ [] →
    ∃ p ∈ columnOwners params aliases column.toList,
      row column = rows (some (columnPlace p column.toList))

/-- True when the column of a member has no alias, or that of the parameter. -/
def Member.mayBelong (aliases : AliasTable) (m : Member) (p : Param) : Bool :=
  !m.isKey || (aliases.ofMember? m).isNone || aliases.alias? p.name == aliases.ofMember? m

/-- True for a member whose column is found in the row that the member is read from: it is a member
of a parameter itself, and the column can belong to this one and to no other. -/
def Member.isFound (params : List Param) (aliases : AliasTable) (m : Member) : Bool :=
  match m.target.unwrap with
  | .param p =>
    (m.isKey || !m.name.toList.contains '.') && params.any (m.mayBelong aliases) &&
      params.all fun q => !m.mayBelong aliases q || q.name == p.name
  | _ => false

section

variable {params : List Param} {aliases : AliasTable} {m : Member}

/-- The parameters a member's column can belong to, and its places there. -/
lemma columnOwners_columnText (hname : m.isKey || !m.name.toList.contains '.') :
    columnOwners params aliases (GroupKeys.columnText aliases m).toList =
        params.filter (m.mayBelong aliases) ∧
      ∀ p, columnPlace p (GroupKeys.columnText aliases m).toList =
        (p.name, [Text.identifier m.name]) := by
  have hpoint : '.' ∉ (Text.identifier m.name).toList := fun h =>
    (Text.isCapital_apart (Text.isCapital_identifier m.name _ h)).2.1 rfl
  unfold GroupKeys.columnText columnOwners Member.mayBelong columnPlace
  cases hkey : m.isKey with
  | false =>
    have hpoint : '.' ∉ m.name.toList := by simpa [hkey] using hname
    simp [Text.splitLast?_eq_none_iff.2 hpoint, (Text.afterLast_qualified hpoint []).1]
  | true =>
    cases aliases.ofMember? m with
    | none =>
      simp [qualified, Text.splitLast?_eq_none_iff.2 hpoint, (Text.afterLast_qualified hpoint []).1]
    | some a =>
      have htext : (qualified (some a) (Text.identifier m.name)).toList =
          a.toList ++ '.' :: (Text.identifier m.name).toList := by simp [qualified]
      simp [htext, Text.splitLast?_qualified hpoint, (Text.afterLast_qualified hpoint a.toList).2]

lemma Expr.place?_unwrap (e : Expr) : e.unwrap.place? = e.place? := by
  cases e with
  | unary op operand type =>
    cases op with
    | convert => exact place?_unwrap operand
    | _ => rfl
  | _ => rfl

/-- A column that is found has the value of its member. -/
lemma KeyRows.Gives.column_eq {V : Type} {rows : KeyRows V} {row : String → V}
    (hrow : rows.Gives params aliases row) (h : m.isFound params aliases) :
    rows m.toExpr.place? = row (GroupKeys.columnText aliases m) := by
  unfold Member.isFound at h
  split at h
  · next p htarget =>
    simp only [Bool.and_eq_true, all_eq_true, any_eq_true, Bool.or_eq_true,
      Bool.not_eq_true', beq_iff_eq] at h
    obtain ⟨⟨hname, q, hq, hbelongs⟩, hothers⟩ := h
    obtain ⟨howners, hplace⟩ := @columnOwners_columnText params aliases m
      (by simpa only [Bool.or_eq_true, Bool.not_eq_true'] using hname)
    have hvalue := hrow (GroupKeys.columnText aliases m)
    rw [howners] at hvalue
    obtain ⟨r, hr, hvalue⟩ := hvalue (ne_nil_of_mem (mem_filter.2 ⟨hq, hbelongs⟩))
    obtain ⟨hr, hbelongs⟩ := mem_filter.1 hr
    have hmember : m.toExpr.place? = some (p.name, [Text.identifier m.name]) := by
      rw [Member.toExpr, Expr.place?, ← Expr.place?_unwrap, htarget]
      rfl
    have howner : r.name = p.name := (hothers r hr).resolve_left (by simp [hbelongs])
    rw [hvalue, hmember, hplace, howner]
  · cases h

/-- A column has its value in the row of any owner, or any value without one. -/
lemma KeyRows.exists_gives {V : Type} (rows : KeyRows V) (column : String) (v : V)
    (hv : columnOwners params aliases column.toList ≠ [] →
      ∃ p ∈ columnOwners params aliases column.toList,
        v = rows (some (columnPlace p column.toList))) :
    ∃ row, rows.Gives params aliases row ∧ row column = v := by
  refine ⟨fun c => if c = column then v else rows
    ((columnOwners params aliases c.toList).head?.map fun p => columnPlace p c.toList),
    fun c hc => ?_, if_pos rfl⟩
  by_cases hsame : c = column
  · subst hsame
    simpa using hv hc
  · obtain ⟨p, rest, hp⟩ := exists_cons_of_ne_nil hc
    exact ⟨p, by simp [hp], by simp [hsame, hp]⟩

/-- Rows whose values are their places. -/
def placeRows : KeyRows (FreeMagma (Option (String × List String))) :=
  .of

/-- A value without a path is that of a parameter. -/
lemma Expr.unwrap_of_place? {e : Expr} {name : String} (h : e.place? = some (name, [])) :
    ∃ p, e.unwrap = .param p ∧ p.name = name := by
  cases e with
  | param p =>
    cases h
    exact ⟨p, rfl, rfl⟩
  | member target name' type isKey =>
    obtain ⟨q, -, hq⟩ := Option.map_eq_some_iff.1 h
    simp at hq
  | unary op operand type =>
    cases op with
    | convert => exact unwrap_of_place? (e := operand) h
    | _ => cases h
  | _ => cases h

/-- Behind a point, a name has not the spelling of the whole name. -/
lemma noPoint_of_identifier_eq (h : Text.identifier m.name = Text.identifier
      (String.ofList (Text.afterLast ['.'] (GroupKeys.columnText aliases m).toList))) :
    m.isKey || !m.name.toList.contains '.' := by
  cases hkey : m.isKey with
  | true => rfl
  | false =>
    have hsplit : Text.splitLast? ['.'] m.name.toList = none := by
      cases hsplit : Text.splitLast? ['.'] m.name.toList with
      | none => rfl
      | some parts =>
        have hshort := Text.length_of_splitLast? hsplit
        have hsame := congrArg (fun name => name.toList.length) h
        simp [GroupKeys.columnText, hkey, Text.afterLast, hsplit] at hsame
        omega
    simpa using Text.splitLast?_eq_none_iff.1 hsplit

/-- A column that has the place of its member, in whichever row it is looked up, is found. -/
lemma Member.isFound_of_place
    (h : ∀ row, placeRows.Gives params aliases row →
      placeRows m.toExpr.place? = row (GroupKeys.columnText aliases m)) :
    m.isFound params aliases := by
  have howners : columnOwners params aliases (GroupKeys.columnText aliases m).toList ≠ [] := by
    intro hnil
    obtain ⟨row, hrow, hvalue⟩ := placeRows.exists_gives _
      (.mul (.of none) (.of none)) fun hne => absurd hnil hne
    cases (h row hrow).trans hvalue
  have hplace : ∀ q ∈ columnOwners params aliases (GroupKeys.columnText aliases m).toList,
      m.toExpr.place? = some (columnPlace q (GroupKeys.columnText aliases m).toList) := by
    intro q hq
    obtain ⟨row, hrow, hvalue⟩ := placeRows.exists_gives _ _ fun _ => ⟨q, hq, rfl⟩
    injection (h row hrow).trans hvalue
  -- a path of one name belongs to a member of a parameter
  obtain ⟨q, hq⟩ := exists_mem_of_ne_nil _ howners
  obtain ⟨⟨root, path⟩, htarget, hpath⟩ := Option.map_eq_some_iff.1 (hplace q hq)
  obtain ⟨hroot, hpath⟩ := Prod.mk.inj hpath
  obtain ⟨rfl, hleaf⟩ : path = [] ∧ Text.identifier m.name = Text.identifier
      (String.ofList (Text.afterLast ['.'] (GroupKeys.columnText aliases m).toList)) := by
    cases path <;> simp_all
  obtain ⟨p, hunwrap, rfl⟩ := Expr.unwrap_of_place? htarget
  have hname := noPoint_of_identifier_eq hleaf
  have hfilter := (@columnOwners_columnText params aliases m hname).1
  rw [hfilter] at hplace howners
  obtain ⟨r, hr⟩ := exists_mem_of_ne_nil _ howners
  obtain ⟨hr, hbelongs⟩ := mem_filter.1 hr
  simp only [isFound, hunwrap, Bool.and_eq_true, all_eq_true, any_eq_true]
  refine ⟨⟨hname, r, hr, hbelongs⟩, fun q hq => ?_⟩
  cases hb : m.mayBelong aliases q with
  | false => rfl
  | true =>
    have hsame := hplace q (mem_filter.2 ⟨hq, hb⟩)
    obtain ⟨_, htarget', hq'⟩ := Option.map_eq_some_iff.1 hsame
    rw [htarget] at htarget'
    cases htarget'
    simpa using (Prod.mk.inj hq').1.symm

end

/-- The meaning that keeps apart which column stands where. -/
def columnPlaces : KeyMeaning (FreeMagma (Option (String × List String))) where
  literal _ := .of none
  negate := id
  operate _ := .mul
  coalesce := .mul

lemma isLawful_columnPlaces : columnPlaces.IsLawful :=
  ⟨fun _ _ => rfl, fun _ _ _ _ => rfl⟩

/-- Equal values come from the same places, column by column. -/
lemma Expr.column_eq_of_keyValue? {column column' : Member → FreeMagma _} (e : Expr)
    {v : FreeMagma _} (h : e.keyValue? columnPlaces column = some v)
    (h' : e.keyValue? columnPlaces column' = some v) :
    ∀ x ∈ e.keyMembers, column x = column' x := by
  cases e with
  | member target name type isKey =>
    intro x hx
    rw [mem_singleton.1 hx]
    exact Option.some.inj (Eq.trans h h'.symm)
  | unary op operand type =>
    cases op with
    | convert => exact column_eq_of_keyValue? operand h h'
    | negate =>
      rw [keyValue?, show columnPlaces.negate = id from rfl, Option.map_id_apply] at h h'
      exact column_eq_of_keyValue? operand h h'
    | not => cases h
  | binary op left right =>
    rw [keyValue?] at h h'
    obtain ⟨f, hf, h⟩ := Option.bind_eq_some_iff.1 h
    rw [hf, Option.bind_some] at h'
    obtain rfl : f = .mul := by cases op <;> cases hf <;> rfl
    obtain ⟨l, hl, h⟩ := Option.bind_eq_some_iff.1 h
    obtain ⟨r, hr, rfl⟩ := Option.map_eq_some_iff.1 h
    obtain ⟨l', hl', h'⟩ := Option.bind_eq_some_iff.1 h'
    obtain ⟨r', hr', h'⟩ := Option.map_eq_some_iff.1 h'
    cases h'
    intro x hx
    rcases mem_append.1 hx with hx | hx
    · exact column_eq_of_keyValue? left hl hl' x hx
    · exact column_eq_of_keyValue? right hr hr' x hx
  | _ => exact fun x hx => absurd hx not_mem_nil

/-! ## Keys that keep their value -/

/-- A text keeps the value of a key expression if it can be read, and what is read has the value of
the expression on all rows of the parameters, in whichever of them a column is looked up, and
whatever arithmetic means. -/
def KeepsKeyValue (params : List Param) (aliases : AliasTable) (e : Expr) (key : String) : Prop :=
  ∃ sql, KeySql.read key = some sql ∧ ∀ (V : Type) (m : KeyMeaning V), m.IsLawful →
    ∀ (rows : KeyRows V) (row : String → V), rows.Gives params aliases row →
      e.keyValue? m (fun x => rows x.toExpr.place?) = some (sql.value m row)

/-- The text of a term keeps the value exactly if no operand needs brackets, no two minus signs
follow each other and all columns are found. -/
lemma keepsKeyValue_text_iff {params : List Param} {aliases : AliasTable} {e : Expr} {t : KeySql}
    (ht : e.keyTerm? aliases = some t) (hnames : t.hasNames) :
    KeepsKeyValue params aliases e t.text ↔
      t.isGrouped ∧ t.isSpaced ∧ ∀ m ∈ e.keyMembers, m.isFound params aliases := by
  constructor
  · rintro ⟨sql, hread, hsame⟩
    rw [KeySql.read_text t hnames] at hread
    cases hspaced : t.isSpaced with
    | false =>
      rw [hspaced] at hread
      cases hread
    | true =>
      rw [hspaced, if_pos rfl] at hread
      have hvalue : ∀ {V : Type} {m : KeyMeaning V}, m.IsLawful → ∀ row : String → V,
          (e.keyValue? m fun x => row (GroupKeys.columnText aliases x)) =
            some (t.value m row) := by
        intro V m hm row
        rw [Expr.keyValue?_eq hm e fun _ _ => rfl, ht, Option.map_some]
      have hgrouped : t.isGrouped := by
        -- rows with one value everywhere leave nothing but the shape
        have hgives : KeyRows.Gives (fun _ => KeySql.column "") params aliases
            (fun _ => .column "") := by
          intro column h
          obtain ⟨p, hp⟩ := exists_mem_of_ne_nil _ h
          exact ⟨p, hp, rfl⟩
        have hshape := hsame KeySql KeySql.normal KeySql.isLawful_normal _ _ hgives
        have hterm := (hvalue KeySql.isLawful_normal fun _ => .column "").symm.trans hshape
        have hshaped := KeySql.isShaped_of_run hread
        rw [← (KeySql.shape_value_normal t).2.2, Option.some.inj hterm,
          (KeySql.shape_value_normal sql).2.2, ← KeySql.isShaped_norm,
          KeySql.norm_of_isShaped hshaped, hshaped]
      refine ⟨hgrouped, rfl, fun m hm => Member.isFound_of_place fun row hrow => ?_⟩
      -- every column of the text has the place of its member
      have hplaces := hsame _ columnPlaces isLawful_columnPlaces placeRows row hrow
      rw [KeySql.run_tokens hgrouped] at hread
      cases hread
      rw [KeySql.value_norm isLawful_columnPlaces] at hplaces
      exact Expr.column_eq_of_keyValue? e hplaces (hvalue isLawful_columnPlaces row) m hm
  · rintro ⟨hgrouped, hspaced, hfound⟩
    refine ⟨t.norm, ?_, fun V m hm rows row hrow => ?_⟩
    · rw [KeySql.read_text t hnames, hspaced, if_pos rfl, KeySql.run_tokens hgrouped]
    · rw [Expr.keyValue?_eq hm e fun x hx => hrow.column_eq (hfound x hx), ht, Option.map_some,
        KeySql.value_norm hm]

/-- The keys of a selector are written for its parts, one by one. The key of an expression over
columns and constants keeps its value exactly if no operand needs brackets, no two minus signs
follow each other, and every column is found in the row that its member is read from. -/
theorem Lambda.groupKeys_value_iff {selector : Lambda} {d : Dialect} {aliases : AliasTable}
    {limit : Nat} {keys : List String} (h : selector.groupKeys d aliases limit = .ok keys) :
    List.Forall₂
      (fun e key => ∀ t, e.keyTerm? aliases = some t → t.hasNames = true →
        (KeepsKeyValue selector.params aliases e key ↔ t.isGrouped = true ∧ t.isSpaced = true ∧
          ∀ m ∈ e.keyMembers, m.isFound selector.params aliases = true))
      selector.body.keyParts keys := by
  refine (Lambda.isKeyOf_of_groupKeys h).imp fun e key hkey t ht hnames => ?_
  have htext : key = t.text := by
    have hstyled := Expr.styled_of_keyTerm? d ht
    rw [hkey] at hstyled
    cases hstyled
    rfl
  rw [htext]
  exact keepsKeyValue_text_iff ht hnames

/-- A column of a row of numbers. -/
def numberColumn (param name : String) : Expr :=
  .member (.param ⟨param, .unknown⟩) name .int false

/-- A difference with a negated product and a negative number. -/
def netKey : Expr :=
  .binary .subtract
    (.unary .negate (.binary .multiply (numberColumn "x" "A") (numberColumn "x" "B")) .int)
    (.binary .coalesce (numberColumn "x" "C") (.const (.int (-1))))

/-- A product of a sum. -/
def grossKey : Expr :=
  .binary .multiply (.binary .add (numberColumn "x" "A") (numberColumn "x" "B"))
    (numberColumn "x" "C")

/-- A selector of two keys. -/
def amountKeys : Lambda where
  params := [⟨"x", .unknown⟩]
  body := .record none [("Net", netKey), ("Gross", grossKey)]

/-- A difference between the columns of two rows. -/
def moveKey : Lambda where
  params := [⟨"x", .unknown⟩, ⟨"y", .unknown⟩]
  body := .binary .subtract (numberColumn "x" "Price") (numberColumn "y" "Price")

/-- The key of the difference keeps its value, and the key of the product does not; nor does a key
whose columns are in two rows. -/
theorem Lambda.groupKeys_value_amountKeys :
    amountKeys.groupKeys {} {} 10 = .ok ["-A * B - COALESCE(C, -1)", "A + B * C"] ∧
      KeepsKeyValue amountKeys.params {} netKey "-A * B - COALESCE(C, -1)" ∧
      ¬ KeepsKeyValue amountKeys.params {} grossKey "A + B * C" ∧
      moveKey.groupKeys {} {} 10 = .ok ["Price - Price"] ∧
      ¬ KeepsKeyValue moveKey.params {} moveKey.body "Price - Price" := by
  have hkeys : amountKeys.groupKeys {} {} 10 = .ok ["-A * B - COALESCE(C, -1)", "A + B * C"] := by
    decide
  have hmove : moveKey.groupKeys {} {} 10 = .ok ["Price - Price"] := by decide
  obtain ⟨hnet, hrest⟩ := forall₂_cons.1 (Lambda.groupKeys_value_iff hkeys)
  obtain ⟨hgross, -⟩ := forall₂_cons.1 hrest
  obtain ⟨hprice, -⟩ := forall₂_cons.1 (Lambda.groupKeys_value_iff hmove)
  refine ⟨hkeys, (hnet _ rfl (by decide)).2 (by decide), ?_, hmove, ?_⟩
  · rw [hgross _ rfl (by decide)]
    decide
  · rw [hprice _ rfl (by decide)]
    decide

end StreamQuery
