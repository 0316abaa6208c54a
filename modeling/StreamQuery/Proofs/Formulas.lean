import Mathlib.Algebra.Field.Basic
import Mathlib.Data.List.TakeWhile
import Mathlib.Order.Lattice
import Mathlib.Tactic.Common
import StreamQuery.Hub.Outline

/-!
# Formulas over aggregates

A formula is built by arithmetic from aggregates of single columns. It is what the members of a
grouped projection mean (`Expr.formula?`), and what the text of an output column says when it is
read as SQL (`Formula.read?`); both have their value over the rows of a group, `Formula.value`.

The reader takes a call `SUM(column)` with or without a qualifier, a minus sign in front of a
formula, and `(left + right)` with its brackets; two minus signs in a row begin a comment. A text
reads as a formula (`Reads`) if the reader finds it in front of any rest, unless there is a comment.

A sum, a minimum, a maximum and the latest value take the rows together two at a time, so they can
be taken over parts first (`reduce_flatMap`). A count and an average cannot.
-/

namespace StreamQuery

open List

/-! ## Aggregates -/

/-- The aggregates that formulas are built from. -/
inductive Aggregate where
  | sum
  | min
  | max
  | average
  | count
  /-- The value of the last row. -/
  | latest
deriving DecidableEq

namespace Aggregate

/-- All aggregates. -/
def all : List Aggregate := [.sum, .min, .max, .average, .count, .latest]

/-- The method that stands for an aggregate in a projection. -/
def method : Aggregate → String
  | .sum => "Sum"
  | .min => "Min"
  | .max => "Max"
  | .average => "Average"
  | .count => "Count"
  | .latest => "LatestByOffset"

/-- The function that stands for an aggregate in a text. -/
def function : Aggregate → String
  | .sum => "SUM"
  | .min => "MIN"
  | .max => "MAX"
  | .average => "AVG"
  | .count => "COUNT"
  | .latest => "LATEST_BY_OFFSET"

/-- The aggregate of a method. -/
def ofMethod? (name : String) : Option Aggregate :=
  all.find? fun a => a.method == name

/-- The aggregate of a function. -/
def ofFunction? (name : String) : Option Aggregate :=
  all.find? fun a => a.function == name

lemma method_of_ofMethod? {name : String} {a : Aggregate} (h : ofMethod? name = some a) :
    a.method = name := by
  simpa using find?_some h

@[simp] lemma ofFunction?_function (a : Aggregate) : ofFunction? a.function = some a := by
  cases a <;> decide

end Aggregate

/-! ## Values -/

section

variable {K : Type*}

/-- A row, as the values of its columns by name. -/
abbrev Row (K : Type*) := String → K

/-- The values of a list taken together two at a time; none if there is none. -/
def reduce (op : K → K → K) : List K → Option K
  | [] => none
  | x :: xs => some ((reduce op xs).elim x (op x))

/-- Two lists are taken together by taking each together first. -/
lemma reduce_append {op : K → K → K} (hop : ∀ x y z, op (op x y) z = op x (op y z))
    (xs ys : List K) : reduce op (xs ++ ys) = Option.merge op (reduce op xs) (reduce op ys) := by
  induction xs with
  | nil => simp [reduce]
  | cons x xs ih =>
    simp only [cons_append, reduce, ih]
    cases reduce op xs <;> cases reduce op ys <;> simp [hop]

/-- Parts taken together before give what all of them give. -/
theorem reduce_flatMap {ι : Type*} {op : K → K → K}
    (hop : ∀ x y z, op (op x y) z = op x (op y z)) (part : ι → List K) (result : ι → K)
    {parts : List ι} (h : ∀ i ∈ parts, reduce op (part i) = some (result i)) :
    reduce op (parts.map result) = reduce op (parts.flatMap part) := by
  induction parts with
  | nil => rfl
  | cons i rest ih =>
    have hrest := ih (forall_mem_cons.1 h).2
    rw [map_cons, flatMap_cons, reduce_append hop, h i mem_cons_self, ← hrest]
    simp only [reduce]
    cases reduce op (rest.map result) <;> simp

lemma reduce_ones {R α : Type*} [NonAssocSemiring R] {xs : List α} (h : xs ≠ []) :
    reduce (· + ·) (xs.map fun _ => (1 : R)) = some (xs.length : R) := by
  induction xs with
  | nil => exact absurd rfl h
  | cons x xs ih =>
    cases xs with
    | nil => simp [reduce]
    | cons y ys =>
      rw [map_cons, reduce, ih (cons_ne_nil _ _)]
      simp [add_comm]

variable [Field K] [LinearOrder K]

/-- The value of an aggregate over the values of a column. -/
def Aggregate.value : Aggregate → List K → Option K
  | .sum, xs => reduce (· + ·) xs
  | .min, xs => reduce Min.min xs
  | .max, xs => reduce Max.max xs
  | .average, xs => (reduce (· + ·) xs).map (· / xs.length)
  | .count, xs => some xs.length
  | .latest, xs => reduce (fun _ y => y) xs

end

/-- The arithmetic operators of formulas. -/
inductive Arithmetic where
  | add
  | subtract
  | multiply
  | divide
deriving DecidableEq

namespace Arithmetic

/-- All arithmetic operators. -/
def all : List Arithmetic := [.add, .subtract, .multiply, .divide]

/-- The operator of expressions that an arithmetic operator is. -/
def op : Arithmetic → BinaryOp
  | .add => .add
  | .subtract => .subtract
  | .multiply => .multiply
  | .divide => .divide

/-- The sign between the operands. -/
def sign : Arithmetic → Char
  | .add => '+'
  | .subtract => '-'
  | .multiply => '*'
  | .divide => '/'

/-- The arithmetic operator that an operator of expressions is. -/
def ofOp? (op : BinaryOp) : Option Arithmetic :=
  all.find? fun o => o.op == op

/-- The arithmetic operator of a sign. -/
def ofSign? (sign : Char) : Option Arithmetic :=
  all.find? fun o => o.sign == sign

lemma op_of_ofOp? {op : BinaryOp} {o : Arithmetic} (h : ofOp? op = some o) : o.op = op := by
  simpa using find?_some h

@[simp] lemma ofSign?_sign (o : Arithmetic) : ofSign? o.sign = some o := by
  cases o <;> decide

/-- The result of an operator. -/
def apply {K : Type*} [Field K] : Arithmetic → K → K → K
  | .add, x, y => x + y
  | .subtract, x, y => x - y
  | .multiply, x, y => x * y
  | .divide, x, y => x / y

end Arithmetic

/-- A formula over aggregates of columns. -/
inductive Formula where
  | call (a : Aggregate) (column : String)
  | negate (f : Formula)
  | binary (o : Arithmetic) (left right : Formula)
deriving DecidableEq

/-- The value of a formula over the rows of a group. -/
def Formula.value {K : Type*} [Field K] [LinearOrder K] (rows : List (Row K)) : Formula → Option K
  | .call a column => a.value (rows.map fun row => row column)
  | .negate f => (f.value rows).map fun x => -x
  | .binary o left right => do return o.apply (← left.value rows) (← right.value rows)

/-! ## Formulas of expressions -/

/-- The column of the selector of a call, in identifier spelling. -/
def selectedColumn? (args : List Expr) : Option String :=
  ((args.findSome? Expr.selectedMember?).filter fun m => m.onParam && m.name != "").map fun m =>
    Text.identifier m.name

/-- The column of a call; a count needs none. -/
def callColumn? (a : Aggregate) (args : List Expr) : Option String :=
  if a = .count then some "" else selectedColumn? args

/-- The formula that an expression is. -/
def Expr.formula? : Expr → Option Formula
  | .call method _ args => do
    let a ← Aggregate.ofMethod? method.name
    return .call a (← callColumn? a args)
  | .unary .convert operand _ => operand.formula?
  | .unary .negate operand _ => operand.formula?.map .negate
  | .binary op left right => do
    let o ← Arithmetic.ofOp? op
    return .binary o (← left.formula?) (← right.formula?)
  | _ => none

/-- An expression means a formula: `formula?` as a relation. -/
inductive Expr.Means : Expr → Formula → Prop where
  | call {method : Method} {receiver : Option Expr} {args : List Expr} {a : Aggregate}
      {column : String} (hname : method.name = a.method)
      (hcolumn : callColumn? a args = some column) :
      Means (.call method receiver args) (.call a column)
  | convert {operand : Expr} {type : DataType} {f : Formula} (h : Means operand f) :
      Means (.unary .convert operand type) f
  | negate {operand : Expr} {type : DataType} {f : Formula} (h : Means operand f) :
      Means (.unary .negate operand type) (.negate f)
  | binary (o : Arithmetic) {left right : Expr} {f g : Formula} (hleft : Means left f)
      (hright : Means right g) : Means (.binary o.op left right) (.binary o f g)

lemma Expr.means_of_formula? {e : Expr} {f : Formula} (h : e.formula? = some f) : e.Means f := by
  fun_induction Expr.formula? e generalizing f with
  | case1 method receiver args =>
    obtain ⟨a, ha, h⟩ := Option.bind_eq_some_iff.1 h
    obtain ⟨column, hcolumn, h⟩ := Option.bind_eq_some_iff.1 h
    cases h
    exact .call (Aggregate.method_of_ofMethod? ha).symm hcolumn
  | case2 operand type ih => exact .convert (ih h)
  | case3 operand type ih =>
    obtain ⟨g, hg, rfl⟩ := Option.map_eq_some_iff.1 h
    exact .negate (ih hg)
  | case4 op left right ihleft ihright =>
    obtain ⟨o, ho, h⟩ := Option.bind_eq_some_iff.1 h
    obtain ⟨g, hg, h⟩ := Option.bind_eq_some_iff.1 h
    obtain ⟨k, hk, h⟩ := Option.bind_eq_some_iff.1 h
    cases h
    exact Arithmetic.op_of_ofOp? ho ▸ .binary o (ihleft hg) (ihright hk)
  | case5 => exact nomatch h

/-! ## Formulas of texts -/

namespace Formula

/-- The name of a column without its qualifiers. -/
def columnName (column : List Char) : String :=
  String.ofList (column.reverse.takeWhile (· != '.')).reverse

/-- Reads a call of an aggregate, and answers what stands behind it. -/
def readCall? (s : List Char) : Option (Formula × List Char) :=
  match s.dropWhile (· != '(') with
  | '(' :: inner =>
    match inner.dropWhile (· != ')') with
    | ')' :: rest =>
      (Aggregate.ofFunction? (String.ofList (s.takeWhile (· != '(')))).map fun a =>
        (.call a (columnName (inner.takeWhile (· != ')'))), rest)
    | _ => none
  | _ => none

/-- Reads a sign between two blanks. -/
def readSign? : List Char → Option (Arithmetic × List Char)
  | ' ' :: sign :: ' ' :: rest => (Arithmetic.ofSign? sign).map fun o => (o, rest)
  | _ => none

/-- Reads a closing bracket. -/
def readClose? : List Char → Option (List Char)
  | ')' :: rest => some rest
  | _ => none

/-- Reads a formula of bounded depth, and answers what stands behind it. -/
def readWithin : Nat → List Char → Option (Formula × List Char)
  | 0, _ => none
  | depth + 1, '-' :: rest =>
    if rest.head? = some '-' then none
    else (readWithin depth rest).map fun f => (.negate f.1, f.2)
  | depth + 1, '(' :: rest => do
    let left ← readWithin depth rest
    let o ← readSign? left.2
    let right ← readWithin depth o.2
    let rest ← readClose? right.2
    return (.binary o.1 left.1 right.1, rest)
  | _ + 1, s => readCall? s

/-- The formula that a text is; no formula is deeper than its text is long. -/
def read? (text : String) : Option Formula :=
  ((readWithin text.toList.length text.toList).filter fun f => f.2.isEmpty).map (·.1)

/-- True for a formula with the opposite sign. -/
def isNegation : Formula → Bool
  | .negate _ => true
  | _ => false

/-- True when no two minus signs follow each other. -/
def isSpaced : Formula → Bool
  | .call _ _ => true
  | .negate f => !f.isNegation && f.isSpaced
  | .binary _ left right => left.isSpaced && right.isSpaced

/-- The text is read as the formula, whatever stands behind it, unless two minus signs follow each
other.  It starts with a minus sign if the formula does. -/
structure Reads (text : List Char) (f : Formula) : Prop where
  head : ∃ c cs, text = c :: cs ∧ (c = '-' ↔ f.isNegation = true)
  within : ∀ depth, text.length ≤ depth → ∀ rest,
    readWithin depth (text ++ rest) = if f.isSpaced then some (f, rest) else none

/-- A text that reads as a formula is that formula. -/
lemma Reads.read? {text : String} {f : Formula} (h : Reads text.toList f) :
    read? text = if f.isSpaced then some f else none := by
  have hall := h.within text.toList.length le_rfl []
  rw [append_nil] at hall
  cases hspaced : f.isSpaced <;> simp [Formula.read?, hall, hspaced]

/-- A column without a point is its own name, behind any qualifier. -/
lemma columnName_qualified {column : List Char} (h : '.' ∉ column) (qualifier : List Char) :
    columnName column = String.ofList column ∧
      columnName (qualifier ++ '.' :: column) = String.ofList column := by
  have hall : ∀ c ∈ column.reverse, (c != '.') := by
    intro c hc
    simpa using fun heq : c = '.' => h (heq ▸ mem_reverse.1 hc)
  constructor
  · rw [columnName, takeWhile_eq_self_iff.2 hall, reverse_reverse]
  · rw [columnName, reverse_append, reverse_cons, append_assoc,
      takeWhile_append_of_pos hall]
    simp

/-- A call reads as the aggregate of its column. -/
lemma reads_call (a : Aggregate) {column : List Char} (h : ')' ∉ column) :
    Reads (a.function.toList ++ '(' :: (column ++ [')'])) (.call a (columnName column)) := by
  have hhead : ∃ c cs, a.function.toList = c :: cs ∧ c ≠ '-' := by
    cases a <;> exact ⟨_, _, rfl, by decide⟩
  obtain ⟨c, cs, hfunction, hc⟩ := hhead
  refine ⟨⟨c, _, by rw [hfunction]; rfl, iff_of_false hc Bool.false_ne_true⟩,
    fun depth hdepth rest => ?_⟩
  have hcolumn : ∀ c ∈ column, (c != ')') := by
    intro c hc
    simpa using fun heq : c = ')' => h (heq ▸ hc)
  have hname : ∀ c ∈ a.function.toList, (c != '(') := by
    cases a <;> exact all_eq_true.1 (by decide)
  have hcall : readCall? (a.function.toList ++ '(' :: (column ++ ')' :: rest)) =
      some (.call a (columnName column), rest) := by
    unfold readCall?
    rw [takeWhile_append_of_pos hname, dropWhile_append_of_pos hname]
    simp [takeWhile_append_of_pos hcolumn, dropWhile_append_of_pos hcolumn]
  -- No function starts with a minus sign or a bracket, so the text is a call for the reader.
  obtain ⟨depth, rfl⟩ : ∃ d, depth = d + 1 :=
    Nat.exists_eq_succ_of_ne_zero (by rintro rfl; simp at hdepth)
  rw [append_assoc, cons_append, append_assoc, singleton_append]
  cases a <;> exact hcall

lemma exists_depth {c : Char} {text : List Char} {depth : Nat}
    (h : (c :: text).length ≤ depth) : ∃ d, depth = d + 1 ∧ text.length ≤ d := by
  rw [length_cons] at h
  exact ⟨depth - 1, by omega, by omega⟩

/-- A minus sign in front of a formula. -/
lemma reads_negate {text : List Char} {f : Formula} (h : Reads text f) :
    Reads ('-' :: text) (.negate f) := by
  refine ⟨⟨_, _, rfl, iff_of_true rfl rfl⟩, fun depth hdepth rest => ?_⟩
  obtain ⟨d, rfl, hd⟩ := exists_depth hdepth
  have hf := h.within d hd rest
  obtain ⟨c, cs, rfl, hsign⟩ := h.head
  cases hnegation : f.isNegation with
  | true => simp [readWithin, isSpaced, hnegation, hsign.2 hnegation]
  | false =>
    have hc : c ≠ '-' := fun hc => by simp [hsign.1 hc] at hnegation
    cases hspaced : f.isSpaced <;> simp_all [readWithin, isSpaced]

/-- Two formulas with a sign between them, in brackets. -/
lemma reads_binary (o : Arithmetic) {left right : List Char} {f g : Formula} (hf : Reads left f)
    (hg : Reads right g) :
    Reads ('(' :: (left ++ ' ' :: o.sign :: ' ' :: (right ++ [')']))) (.binary o f g) := by
  refine ⟨⟨_, _, rfl, by simp [isNegation]⟩, fun depth hdepth rest => ?_⟩
  obtain ⟨d, rfl, hd⟩ := exists_depth hdepth
  simp only [length_cons, length_append] at hd
  have hleft := hf.within d (by omega) (' ' :: o.sign :: ' ' :: (right ++ ')' :: rest))
  have hright := hg.within d (by omega) (')' :: rest)
  cases hfs : f.isSpaced <;> cases hgs : g.isSpaced <;>
    simp [readWithin, isSpaced, hleft, readSign?, hright, readClose?, hfs, hgs]

end Formula

end StreamQuery
