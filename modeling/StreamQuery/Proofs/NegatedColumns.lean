import StreamQuery.Clause.Filter
import StreamQuery.Proofs.Lexemes

/-!
# The columns of a negated filter

The negation of a condition is not always the condition behind a NOT: columns and nullable truth
values are compared with `false`, and membership tests become NOT IN.  A column is a word of the
text that is neither a keyword nor a number, nor the name of a function or a type.

A negation is one of four forms of the condition, each of which reads the same columns
(`Expr.filterText_negated`, `IsNegation.columnsIn_eq`).  The exception is a test whether a nullable
value is present: its negation compares a column that is named like the test.
-/

namespace StreamQuery

open List Lexer

/-! ## The columns of a text -/

/-- The keywords of filters, and the truth values. -/
def filterKeywords : List String :=
  ["AND", "OR", "NOT", "IN", "IS", "NULL", "CASE", "WHEN", "THEN", "ELSE", "END", "AS", "FROM",
    "true", "false"]

/-- True for a word that is no keyword and starts with no digit. -/
def isColumnWord (w : List Char) : Bool :=
  !filterKeywords.contains (String.ofList w) && !w.head?.any Char.isDigit

/-- True for a word in front of a type or of a part of a date. -/
def precedesType (w : List Char) : Bool :=
  w == "AS".toList || w == "EXTRACT".toList

/-- True when an opening bracket comes first. -/
def startsBracket (ts : List Lexeme) : Bool :=
  ts.head? == some (.mark '(')

/-- The columns among lexemes; `typed` tells whether a type may follow.  A word in front of a
bracket names a function. -/
def columnsFrom (typed : Bool) : List Lexeme → List String
  | [] => []
  | .word w :: rest =>
    if isColumnWord w && !typed && !startsBracket rest then
      String.ofList w :: columnsFrom (precedesType w) rest
    else columnsFrom (precedesType w) rest
  | _ :: rest => columnsFrom typed rest

/-- The columns that a text reads, from left to right. -/
def columnsIn (text : String) : List String :=
  columnsFrom false (lexemes text)

/-- Two texts that read the same columns. -/
def SameColumns (a b : String) : Prop :=
  ∀ column, column ∈ columnsIn a ↔ column ∈ columnsIn b

/-- Whether the word before what follows precedes a type. -/
def typedAfter (typed : Bool) : List Lexeme → Bool
  | [] => typed
  | .word w :: rest => typedAfter (precedesType w) rest
  | _ :: rest => typedAfter typed rest

/-- The columns of two lists, unless the second makes a function of the word in front of it. -/
lemma columnsFrom_append (typed : Bool) (a : List Lexeme) {b : List Lexeme}
    (hb : startsBracket b = false) :
    columnsFrom typed (a ++ b) = columnsFrom typed a ++ columnsFrom (typedAfter typed a) b := by
  induction a generalizing typed with
  | nil => rfl
  | cons t a ih =>
    cases t with
    | word w =>
      have hnext : startsBracket (a ++ b) = startsBracket a := by
        cases a with
        | nil => exact hb
        | cons t a => rfl
      simp only [cons_append, columnsFrom, typedAfter, hnext, ih]
      split <;> rfl
    | _ => exact ih typed

/-- Lexemes without columns, whatever stands before them. -/
structure IsColumnFree (ts : List Lexeme) : Prop where
  columns : ∀ typed, columnsFrom typed ts = []
  bracket : startsBracket ts = false

/-- It can be checked whether there are no columns. -/
instance (ts : List Lexeme) : Decidable (IsColumnFree ts) :=
  decidable_of_iff ((∀ typed, columnsFrom typed ts = []) ∧ startsBracket ts = false)
    ⟨fun h => ⟨h.1, h.2⟩, fun h => ⟨h.1, h.2⟩⟩

/-- A text without columns leaves those of the text in front. -/
lemma columnsIn_append (t : String) {b : String} (hb : isApart b.toList) (hquote : '\'' ∉ b.toList)
    (hfree : IsColumnFree (lexemes b)) : columnsIn (t ++ b) = columnsIn t := by
  unfold lexemes at hfree
  unfold columnsIn lexemes
  rw [String.toList_append]
  rcases read_append_or .between t.toList hb hquote with hread | hread
  · rw [hread, columnsFrom_append _ _ hfree.bracket, hfree.columns, append_nil]
  · rw [hread]

/-- A text without columns that ends with a mark or a blank leaves those of the text behind it. -/
lemma columnsIn_behind {a : String} (ha : between.after a.toList = .between)
    (hfree : ∀ ts, columnsFrom false (lexemes a ++ ts) = columnsFrom false ts) (t : String) :
    columnsIn (a ++ t) = columnsIn t := by
  have hread : lexemes (a ++ t) = lexemes a ++ lexemes t := by
    unfold lexemes
    rw [String.toList_append, read_append_of_between ha]
  rw [columnsIn, hread, hfree]
  rfl

/-! ### The values of literals -/

/-- Lexemes that differ in the values of literals only. -/
def Lexeme.shape : Lexeme → Lexeme
  | .text _ => .text []
  | t => t

lemma columnsFrom_map_shape (typed : Bool) (ts : List Lexeme) :
    columnsFrom typed (ts.map Lexeme.shape) = columnsFrom typed ts := by
  induction ts generalizing typed with
  | nil => rfl
  | cons t ts ih =>
    cases t with
    | word w =>
      have hnext : startsBracket (ts.map Lexeme.shape) = startsBracket ts := by
        rcases ts with _ | ⟨_ | _ | _ | _, ts⟩ <;> rfl
      simp only [map_cons, Lexeme.shape, columnsFrom, hnext, ih]
    | _ => exact ih typed

/-- What has been read of a literal matters for its value only. -/
lemma Lexer.map_shape_read (cs s s' : List Char) :
    ((quoted s).read cs).map Lexeme.shape = ((quoted s').read cs).map Lexeme.shape ∧
      ((closed s).read cs).map Lexeme.shape =
        ((closed s').read cs).map Lexeme.shape := by
  induction cs generalizing s s' with
  | nil => exact ⟨rfl, rfl⟩
  | cons c cs ih =>
    by_cases hc : c = '\''
    · have hquoted := (ih s s').2
      have hclosed := (ih (s ++ [c]) (s' ++ [c])).1
      simpa [step, hc] using ⟨hquoted, hc ▸ hclosed⟩
    · have hquoted := (ih (s ++ [c]) (s' ++ [c])).1
      simpa [step, hc, Lexeme.shape] using hquoted

lemma Lexer.read_quoted_append {b : List Char} (hb : '\'' ∉ b) (s cs : List Char) :
    (quoted s).read (b ++ cs) = (quoted (s ++ b)).read cs := by
  induction b generalizing s with
  | nil => rw [nil_append, append_nil]
  | cons c b ih =>
    rw [mem_cons, not_or] at hb
    have hrest := ih hb.2 (s ++ [c])
    rw [append_assoc, singleton_append] at hrest
    simpa [step, Ne.symm hb.1] using hrest

/-- Texts that are read alike behind a text are read alike with it. -/
lemma Lexer.map_shape_read_append {l : Lexer} {a b b' : List Char}
    (h : ((l.after a).read b).map Lexeme.shape = ((l.after a).read b').map Lexeme.shape) :
    (l.read (a ++ b)).map Lexeme.shape = (l.read (a ++ b')).map Lexeme.shape := by
  induction a generalizing l with
  | nil => exact h
  | cons c a ih =>
    rw [cons_append, cons_append, read_cons, read_cons, map_append,
      map_append, ih h]

/-! ## Conditions and their negations -/

/-- The forms that the negation of a condition has. -/
inductive IsNegation : String → String → Prop
  | wrapped (t : String) : IsNegation t ("NOT (" ++ t ++ ")")
  /-- A truth value that is compared with `false` instead of `true`. -/
  | compared (t : String) : IsNegation ("(" ++ t ++ " = true)") ("(" ++ t ++ " = false)")
  | column (t : String) : IsNegation t ("(" ++ t ++ " = false)")
  | excluded (v c : String) : IsNegation (v ++ " IN (" ++ c ++ ")") (v ++ " NOT IN (" ++ c ++ ")")

lemma columnsIn_bracket (t : String) : columnsIn ("(" ++ t) = columnsIn t :=
  columnsIn_behind (by decide) (fun _ => rfl) t

lemma columnsIn_membership (v c : String) :
    columnsIn (v ++ " NOT IN (" ++ c) = columnsIn (v ++ " IN (" ++ c) := by
  unfold columnsIn lexemes
  simp only [String.toList_append, append_assoc]
  cases hv : (between.after v.toList).isQuoted with
  | false =>
    have hin : between.read (" IN (".toList ++ c.toList) =
        ([.blank, .word "IN".toList, .blank, .mark '('] : List Lexeme) ++ between.read c.toList :=
      read_append_of_between (by decide) _
    have hnot : between.read (" NOT IN (".toList ++ c.toList) =
        ([.blank, .word "NOT".toList, .blank, .word "IN".toList, .blank, .mark '('] :
          List Lexeme) ++ between.read c.toList :=
      read_append_of_between (by decide) _
    rw [read_append hv rfl, read_append hv rfl, columnsFrom_append, columnsFrom_append, hin, hnot]
    · rfl
    · rw [hin]; rfl
    · rw [hnot]; rfl
  | true =>
    -- both texts go on inside the same literal
    have hshape : ((between.after v.toList).read (" NOT IN (".toList ++ c.toList)).map
          Lexeme.shape =
        ((between.after v.toList).read (" IN (".toList ++ c.toList)).map Lexeme.shape := by
      cases hafter : between.after v.toList with
      | quoted s =>
        rw [read_quoted_append (by decide), read_quoted_append (by decide)]
        exact (map_shape_read _ _ _).1
      | _ => rw [hafter] at hv; cases hv
    rw [← columnsFrom_map_shape, map_shape_read_append hshape, columnsFrom_map_shape]

/-- A negation reads the columns of its condition. -/
lemma IsNegation.columnsIn_eq {text negation : String} (h : IsNegation text negation) :
    columnsIn negation = columnsIn text := by
  have hbracket : ∀ t, columnsIn (t ++ ")") = columnsIn t := fun t =>
    columnsIn_append t (by decide) (by decide) (by decide)
  have htrue : ∀ t, columnsIn (t ++ " = true)") = columnsIn t := fun t =>
    columnsIn_append t (by decide) (by decide) (by decide)
  have hfalse : ∀ t, columnsIn (t ++ " = false)") = columnsIn t := fun t =>
    columnsIn_append t (by decide) (by decide) (by decide)
  have hnot : ∀ t, columnsIn ("NOT (" ++ t) = columnsIn t :=
    columnsIn_behind (by decide) fun _ => rfl
  cases h with
  | wrapped t => rw [hbracket, hnot]
  | compared t => rw [hfalse, htrue]
  | column t => rw [hfalse, columnsIn_bracket]
  | excluded v c => rw [hbracket, hbracket, columnsIn_membership]

namespace Expr

/-- The test for a nullable value that an expression is, under conversions. -/
def presenceTest? (e : Expr) : Option Member :=
  match e.unwrap with
  | .member target name type isKey =>
    if name == "HasValue" && target.type.isNullable && type.isBool then
      some ⟨target, name, type, isKey⟩
    else none
  | _ => none

end Expr

section

variable {d : Dialect} {aliases : AliasTable} {text : String}

/-- A text that stands behind a NOT in the place of a negation. -/
lemma exists_wrapped {x : Except Fault String} {write : String → String}
    (h : (do return Place.condition.wrap (write (← x))) = .ok text) :
    ∃ negation, (do return Place.negated.wrap (write (← x))) = .ok negation ∧
      IsNegation text negation := by
  obtain ⟨t, rfl, htext⟩ := ok_of_bind h
  cases htext
  exact ⟨_, rfl, .wrapped (write t)⟩

/-- The negation of a member access that is no test for a value being there. -/
lemma Filter.accessText_negated {m : Member} {target : Except Fault String}
    (htest : m.toExpr.presenceTest? = none)
    (h : accessText aliases .condition m target = .ok text) :
    ∃ negation, accessText aliases .negated m target = .ok negation ∧ IsNegation text negation := by
  have hpresence : m.type.isBool →
      (m.name == "HasValue" && m.target.type.isNullable) = false := by
    intro hbool
    simpa [Member.toExpr, Expr.presenceTest?, Expr.unwrap, hbool] using htest
  unfold accessText at h ⊢
  cases hvalue : m.name == "Value" && m.target.type.isNullableBool with
  | true =>
    rw [hvalue] at h
    obtain ⟨t, ht, h⟩ := ok_of_bind h
    cases h
    exact ⟨"(" ++ t ++ " = false)", by rw [ht]; rfl, .compared t⟩
  | false =>
    rw [hvalue] at h
    cases hbool : m.type.isBool with
    | true =>
      -- the column is compared with `false`, whether or not it is compared with `true` elsewhere
      rw [hbool, hpresence hbool] at h
      refine ⟨"(" ++ columnText aliases m ++ " = false)", rfl, ?_⟩
      cases hnullable : m.type.isNullable with
      | true =>
        rw [hnullable] at h
        cases h
        exact .column (columnText aliases m)
      | false =>
        rw [hnullable] at h
        cases h
        exact .compared (columnText aliases m)
    | false =>
      rw [hbool] at h
      cases hname : m.name == "HasValue" && m.target.type.isNullable with
      | true =>
        rw [hname] at h
        exact exists_wrapped h
      | false =>
        rw [hname] at h
        cases h
        exact ⟨_, rfl, .wrapped (columnText aliases m)⟩

/-- The negation of a call. -/
lemma Filter.callText_negated {c : CallTexts} (h : callText d aliases .condition c = .ok text) :
    ∃ negation, callText d aliases .negated c = .ok negation ∧ IsNegation text negation := by
  unfold callText at h ⊢
  cases hmember : membership? c with
  | none =>
    rw [hmember] at h
    exact exists_wrapped h
  | some test =>
    obtain ⟨collection, value⟩ := test
    rw [hmember] at h
    obtain ⟨v, hv, h⟩ := ok_of_bind h
    obtain ⟨c, hc, h⟩ := ok_of_bind h
    cases h
    exact ⟨v ++ " NOT IN (" ++ c ++ ")", by rw [hv, hc]; rfl, .excluded v c⟩

/-- What is written as a condition can be negated, and unless it tests for presence, the two texts
are a condition and its negation. -/
lemma Expr.filterText_negated (e : Expr) (htest : e.presenceTest? = none)
    (h : e.filterText d aliases .condition = .ok text) :
    ∃ negation, e.filterText d aliases .negated = .ok negation ∧ IsNegation text negation := by
  cases e with
  | param p =>
    rw [filterText] at h ⊢
    cases h
    exact ⟨_, rfl, .wrapped p.name⟩
  | const value =>
    rw [filterText] at h ⊢
    cases h
    exact ⟨_, rfl, .wrapped value.sql⟩
  | record typeName members =>
    rw [filterText] at h
    cases h
  | lambda params body =>
    simp only [filterText] at h ⊢
    rw [h]
    exact ⟨_, rfl, .wrapped text⟩
  | unary op operand type =>
    cases op with
    | not =>
      rw [filterText] at h ⊢
      exact exists_wrapped h
    | negate =>
      rw [filterText] at h ⊢
      exact exists_wrapped h
    | convert =>
      rw [filterText] at h ⊢
      exact filterText_negated operand htest h
  | member target name type isKey =>
    rw [filterText] at h ⊢
    exact Filter.accessText_negated htest h
  | call method receiver args =>
    rw [filterText] at h ⊢
    exact Filter.callText_negated h
  | cond test ifTrue ifFalse =>
    rw [filterText] at h ⊢
    obtain ⟨t, ht, h⟩ := ok_of_bind h
    obtain ⟨a, ha, h⟩ := ok_of_bind h
    obtain ⟨b, hb, h⟩ := ok_of_bind h
    cases h
    rw [ht, ha, hb]
    exact ⟨_, rfl, .wrapped _⟩
  | binary op left right =>
    rw [filterText] at h ⊢
    split at h
    · exact exists_wrapped h
    · exact exists_wrapped h
    · split at h <;> exact exists_wrapped h

/-- A test for a value tests it, but its negation compares a column. -/
lemma Expr.filterText_presenceTest (e : Expr) {m : Member} (htest : e.presenceTest? = some m)
    (h : e.filterText d aliases .condition = .ok text) :
    (∃ t, m.target.filterText d aliases .value = .ok t ∧ text = t ++ " IS NOT NULL") ∧
      e.filterText d aliases .negated =
        .ok ("(" ++ Filter.columnText aliases m ++ " = false)") := by
  cases e with
  | unary op operand type =>
    cases op with
    | convert =>
      rw [filterText] at h ⊢
      exact filterText_presenceTest operand htest h
    | not => cases htest
    | negate => cases htest
  | member target name type isKey =>
    simp only [presenceTest?, unwrap] at htest
    split at htest
    · next hall =>
      cases htest
      simp only [Bool.and_eq_true, beq_iff_eq] at hall
      obtain ⟨⟨rfl, hnullable⟩, hbool⟩ := hall
      rw [filterText] at h ⊢
      simp only [Filter.accessText, hnullable, hbool] at h ⊢
      obtain ⟨t, ht, h⟩ := ok_of_bind h
      cases h
      exact ⟨⟨t, ht, rfl⟩, rfl⟩
    · cases htest
  | _ => cases htest

end

/-! ## The columns of a negation -/

/-- What is written as a condition can be negated. The negation reads the same columns from left to
right, unless the condition tests whether a nullable value is there; then they read the same only if
the value is read from the column named like the test alone. -/
theorem Expr.sameColumns_negation_iff {d : Dialect} {aliases : AliasTable} (e : Expr)
    (type : DataType) {text : String} (h : e.filterText d aliases .condition = .ok text) :
    ∃ negation, (Expr.unary .not e type).filterText d aliases .condition = .ok negation ∧
      (e.presenceTest? = none → columnsIn negation = columnsIn text) ∧
      (SameColumns negation text ↔ ∀ m, e.presenceTest? = some m →
        ∀ t, m.target.filterText d aliases .value = .ok t →
          SameColumns (Filter.columnText aliases m) t) := by
  have hnot : ∀ negation, e.filterText d aliases .negated = .ok negation →
      (Expr.unary .not e type).filterText d aliases .condition = .ok negation := by
    intro negation hnegation
    rw [filterText, hnegation]
    rfl
  cases htest : e.presenceTest? with
  | none =>
    obtain ⟨negation, hnegation, hforms⟩ := e.filterText_negated htest h
    have hsame := hforms.columnsIn_eq
    refine ⟨negation, hnot _ hnegation, fun _ => hsame, ⟨?_, ?_⟩⟩
    · intro _ m hm
      cases hm
    · intro _ column
      rw [hsame]
  | some m =>
    obtain ⟨⟨t, ht, rfl⟩, hnegation⟩ := e.filterText_presenceTest htest h
    have htext : columnsIn (t ++ " IS NOT NULL") = columnsIn t :=
      columnsIn_append t (by decide) (by decide) (by decide)
    have hcolumn : columnsIn ("(" ++ Filter.columnText aliases m ++ " = false)") =
        columnsIn (Filter.columnText aliases m) := by
      rw [columnsIn_append _ (by decide) (by decide) (by decide), columnsIn_bracket]
    refine ⟨_, hnot _ hnegation, fun hnone => absurd hnone (Option.some_ne_none m), ?_⟩
    unfold SameColumns
    rw [htext, hcolumn]
    constructor
    · intro hsame m' hm' t' ht'
      cases hm'
      rw [ht] at ht'
      cases ht'
      exact hsame
    · intro hall
      exact hall m rfl t ht

/-- The test whether the flag of an order is there. -/
def flagPresence : Expr :=
  .member (.member (.param ⟨"o", .record "Order"⟩) "Flag" (.nullable .int) false) "HasValue" .bool
    false

/-- An order with a flag is found by it, one without by a column `HasValue`. -/
theorem Expr.sameColumns_negation_flagPresence :
    flagPresence.filterText {} ⟨[("o", "o")]⟩ .condition = .ok "o.Flag IS NOT NULL" ∧
      ∃ negation,
        (Expr.unary .not flagPresence .bool).filterText {} ⟨[("o", "o")]⟩ .condition =
          .ok negation ∧ ¬ SameColumns negation "o.Flag IS NOT NULL" := by
  have htext : flagPresence.filterText {} ⟨[("o", "o")]⟩ .condition = .ok "o.Flag IS NOT NULL" := by
    decide
  obtain ⟨negation, hnegation, -, hiff⟩ :=
    Expr.sameColumns_negation_iff flagPresence .bool htext
  refine ⟨htext, negation, hnegation, fun hsame => ?_⟩
  have hflag : SameColumns "o.HasValue" "o.Flag" := hiff.1 hsame _ rfl _ (by decide)
  have hread : "o.HasValue" ∈ columnsIn "o.Flag" := (hflag "o.HasValue").1 (by decide)
  revert hread
  decide

end StreamQuery
