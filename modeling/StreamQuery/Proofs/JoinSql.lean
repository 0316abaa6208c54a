import Mathlib.Tactic.Common
import StreamQuery.Clause.From

/-!
# Join conditions

The condition of a join is made of columns of two sources, literals, equalities and conditions
joined by AND.  `JoinSql` is such a condition, and `JoinSql.text` its text.  A literal that is a
number carries the proof that it is written as a numeral, which holds for all integers and all
finite doubles.
-/

namespace StreamQuery

open List

/-! ## Numerals -/

/-- True for a run of digits, with a point and more digits behind it or without. -/
def isUnsigned (cs : List Char) : Bool :=
  !(cs.takeWhile Char.isDigit).isEmpty &&
    match cs.dropWhile Char.isDigit with
    | [] => true
    | '.' :: places => !places.isEmpty && places.all Char.isDigit
    | _ => false

/-- True for a decimal numeral, which may have a minus sign. -/
def isNumeral (cs : List Char) : Bool :=
  match cs with
  | '-' :: rest => isUnsigned rest
  | cs => isUnsigned cs

variable {cs : List Char}

lemma isUnsigned_of_digits (hne : cs ≠ []) (hdigits : ∀ c ∈ cs, c.isDigit) : isUnsigned cs := by
  have htake : cs.takeWhile Char.isDigit = cs := by
    simpa using @takeWhile_append_of_pos _ Char.isDigit cs [] hdigits
  have hdrop : cs.dropWhile Char.isDigit = [] := by
    simpa using @dropWhile_append_of_pos _ Char.isDigit cs [] hdigits
  simp [isUnsigned, htake, hdrop, hne]

/-- Two runs of digits with a point between them are a numeral. -/
lemma isUnsigned_of_point {whole places : List Char} (hwhole : whole ≠ []) (hplaces : places ≠ [])
    (hdigits : ∀ c ∈ whole, c.isDigit) (hdigits' : ∀ c ∈ places, c.isDigit) :
    isUnsigned (whole ++ '.' :: places) := by
  have hpoint : ('.').isDigit = false := by decide
  have htake : (whole ++ '.' :: places).takeWhile Char.isDigit = whole := by
    rw [takeWhile_append_of_pos hdigits, takeWhile_cons, hpoint]
    simp
  have hdrop : (whole ++ '.' :: places).dropWhile Char.isDigit = '.' :: places := by
    rw [dropWhile_append_of_pos hdigits, dropWhile_cons, hpoint]
    simp
  simp only [isUnsigned, htake, hdrop]
  simpa [hwhole, hplaces] using hdigits'

lemma isDigit_or_point_of_isUnsigned (h : isUnsigned cs) {c : Char} (hc : c ∈ cs) :
    c.isDigit ∨ c = '.' := by
  unfold isUnsigned at h
  rw [Bool.and_eq_true] at h
  rw [← takeWhile_append_dropWhile (p := Char.isDigit) (l := cs), mem_append] at hc
  rcases hc with hc | hc
  · exact .inl (all_eq_true.1 all_takeWhile c hc)
  · have hplaces := h.2
    split at hplaces
    · next hnone =>
      rw [hnone] at hc
      cases hc
    · next places hpoint =>
      rw [Bool.and_eq_true, all_eq_true] at hplaces
      rw [hpoint, mem_cons] at hc
      rcases hc with hc | hc
      · exact .inr hc
      · exact .inl (hplaces.2 c hc)
    · cases hplaces

lemma ne_nil_of_isUnsigned (h : isUnsigned cs) : cs ≠ [] := by
  rintro rfl
  revert h
  decide

lemma isNumeral_neg (h : isUnsigned cs) : isNumeral ('-' :: cs) := h

lemma isNumeral_of_isUnsigned (h : isUnsigned cs) : isNumeral cs := by
  unfold isNumeral
  split
  · -- a minus sign is no digit
    simp [isUnsigned, show ('-').isDigit = false from rfl] at h
  · exact h

lemma isUnsigned_toDigits (n : Nat) : isUnsigned (Nat.toDigits 10 n) :=
  isUnsigned_of_digits Nat.toDigits_ne_nil fun _ hc =>
    Nat.isDigit_of_mem_toDigits (by decide) (by decide) hc

lemma isNumeral_int (n : Int) : isNumeral (toString n).toList := by
  cases n with
  | ofNat m =>
    have htext : (toString (Int.ofNat m)).toList = Nat.toDigits 10 m := Nat.toList_repr
    rw [htext]
    exact isNumeral_of_isUnsigned (isUnsigned_toDigits m)
  | negSucc m =>
    have htext : (toString (Int.negSucc m)).toList = '-' :: Nat.toDigits 10 (m + 1) := by
      change ("-" ++ (m + 1).repr).toList = _
      simp [String.toList_append, Nat.repr_eq_ofList_toDigits]
    rw [htext]
    exact isNumeral_neg (isUnsigned_toDigits (m + 1))

lemma isUnsigned_decimal (d : Double.Decimal) : isUnsigned d.text.toList := by
  have hdigits : ∀ c ∈ Nat.toDigits 10 d.digits, c.isDigit := fun _ hc =>
    Nat.isDigit_of_mem_toDigits (by decide) (by decide) hc
  have hzeros : ∀ k, ∀ c ∈ List.replicate k '0', c.isDigit := by
    intro k c hc
    rw [eq_of_mem_replicate hc]
    rfl
  unfold Double.Decimal.text
  dsimp only
  split
  · rw [String.toList_ofList]
    refine isUnsigned_of_digits (by simp [Nat.toDigits_ne_nil]) fun c hc => ?_
    rcases mem_append.1 hc with hc | hc
    · exact hdigits c hc
    · exact hzeros _ c hc
  · split
    · rename_i hplaces hlong
      rw [String.toList_ofList]
      have hpos : (-d.exponent).toNat ≠ 0 := by simpa using hplaces
      refine isUnsigned_of_point ?_ ?_ (fun c hc => hdigits c (mem_of_mem_take hc))
        fun c hc => hdigits c (mem_of_mem_drop hc)
      · rw [Ne, take_eq_nil_iff, not_or]
        exact ⟨by omega, Nat.toDigits_ne_nil⟩
      · rw [Ne, drop_eq_nil_iff]
        omega
    · rw [String.toList_ofList]
      refine @isUnsigned_of_point ['0'] _ (by simp) (by simp [Nat.toDigits_ne_nil])
        (by simp) fun c hc => ?_
      rcases mem_append.1 hc with hc | hc
      · exact hzeros _ c hc
      · exact hdigits c hc

lemma isNumeral_double {d : Double} (hfinite : d.isSpecial = false) : isNumeral d.text.toList := by
  have hzero : isUnsigned "0".toList := by decide
  unfold Double.text
  simp only [Double.isNaN, hfinite, Bool.false_and, Bool.false_eq_true, if_false]
  cases d.isNegative <;> cases d.isZero <;>
    simp only [Bool.false_eq_true, if_false, if_true, String.toList_append]
  · exact isNumeral_of_isUnsigned (isUnsigned_decimal _)
  · exact isNumeral_of_isUnsigned hzero
  · exact isNumeral_neg (isUnsigned_decimal _)
  · exact isNumeral_neg hzero

/-! ## Conditions -/

/-- A side of a join. -/
inductive Side where
  | left
  | right
deriving DecidableEq, Inhabited

/-- What belongs to a side. -/
def Side.pick {α : Type} (l r : α) : Side → α
  | .left => l
  | .right => r

/-- A literal. -/
inductive Literal where
  | null
  | bool (value : Bool)
  /-- A number, by its numeral. -/
  | number (numeral : { s : String // isNumeral s.toList = true })
  | string (value : String)
deriving DecidableEq, Inhabited

/-- The text of a literal. -/
def Literal.sql : Literal → String
  | .null => "NULL"
  | .bool true => "true"
  | .bool false => "false"
  | .number numeral => numeral.1
  | .string value => Constant.quoted value

/-- The literal of a constant; none for a list or a double that is not finite. -/
def Constant.literal? : Constant → Option Literal
  | .null => some .null
  | .bool value => some (.bool value)
  | .int value => some (.number ⟨toString value, isNumeral_int value⟩)
  | .double value =>
    if h : value.isSpecial = false then some (.number ⟨value.text, isNumeral_double h⟩) else none
  | .string value => some (.string value)
  | .list _ => none

lemma Constant.sql_of_literal? {c : Constant} {v : Literal} (h : c.literal? = some v) :
    c.sql = v.sql := by
  cases c with
  | bool value => cases h; cases value <;> simp [sql, Literal.sql]
  | double value =>
    simp only [literal?] at h
    split at h
    · cases h; simp [sql, Literal.sql]
    · cases h
  | list items => cases h
  | _ => cases h; simp [sql, Literal.sql]

/-- A join condition; empty brackets are kept apart. -/
inductive JoinSql where
  | column (side : Side) (name : String)
  | literal (value : Literal)
  | equal (left right : JoinSql)
  /-- Two or more conditions. -/
  | all (first second : JoinSql) (rest : List JoinSql)
  | nothing
deriving Inhabited

namespace JoinSql

/-- Conditions joined by AND; any number of them but one stands in brackets. -/
def conjText : List String → String
  | [t] => t
  | ts => "(" ++ Text.joined " AND " ts ++ ")"

/-- All conditions of a list. -/
def conj : List JoinSql → JoinSql
  | [] => .nothing
  | [c] => c
  | c :: d :: rest => .all c d rest

mutual

/-- The text of a condition under two aliases. -/
def text (l r : String) : JoinSql → String
  | .column side name => side.pick l r ++ "." ++ name
  | .literal value => value.sql
  | .equal a b => equalText (a.text l r) (b.text l r)
  | .all a b rest =>
    "(" ++ Text.joined " AND " (a.text l r :: b.text l r :: texts l r rest) ++ ")"
  | .nothing => "()"

/-- The texts of conditions. -/
def texts (l r : String) : List JoinSql → List String
  | [] => []
  | c :: rest => c.text l r :: texts l r rest

end

lemma texts_eq_map (l r : String) (cs : List JoinSql) : texts l r cs = cs.map (text l r) := by
  induction cs with
  | nil => rw [texts]; rfl
  | cons c rest ih => rw [texts, ih]; rfl

lemma text_conj (l r : String) (cs : List JoinSql) :
    (conj cs).text l r = conjText (cs.map (text l r)) := by
  rcases cs with _ | ⟨a, _ | ⟨b, rest⟩⟩
  · simp [conj, text, conjText, Text.joined]
  · simp [conj, conjText]
  · simp [conj, text, conjText, texts_eq_map]

end JoinSql

end StreamQuery
