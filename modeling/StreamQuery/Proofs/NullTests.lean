import Mathlib.Logic.Relation
import StreamQuery.Proofs.WrittenParts

/-!
# Null tests

A comparison with the null constant becomes a null test where the row filter itself writes it;
inside a call it is written as any other operation, with the word NULL behind the sign of
comparison.

`Part.Rendered` are the parts whose texts stand in the text of a part, at any depth.  A text
compares something with NULL if a part in it has a comparand that begins with NULL
(`Part.comparesNull_iff`).
-/

namespace StreamQuery

open List Layout

/-- The parts whose texts stand in the text of a part, at any depth. -/
def Part.Rendered (d : Dialect) : Part → Part → Prop :=
  Relation.ReflTransGen fun p q => q ∈ p.parts d

section

variable {d : Dialect} {aliases : AliasTable}

/-- A text that is put together from hushed texts is hushed.  It compares something with NULL if one
of them does, or begins with NULL behind a sign of comparison. -/
lemma Written.comparesNull_iff {parts comparands : List Part} {text : String}
    (h : Written d aliases parts comparands text)
    (hparts : ∀ p ∈ parts, IsHushed (p.chars d aliases)) :
    IsHushed text.toList ∧ (comparesNull text.toList ↔
      (∃ p ∈ parts, comparesNull (p.chars d aliases)) ∨
        ∃ p ∈ comparands, startsNull (p.chars d aliases)) := by
  obtain ⟨-, L, hL, hleaves, rfl, hfill⟩ := h
  rw [← hfill, ← hL.compared]
  exact ⟨isHushed_fill hL.isHushed hleaves hparts, comparesNull_fill hL.isHushed hleaves hparts⟩

/-- The texts of parts stand in the text that is put together from them. -/
lemma Written.stands_in {parts comparands : List Part} {text : String}
    (h : Written d aliases parts comparands text) {p : Part} (hp : p ∈ parts) :
    p.chars d aliases <:+: text.toList := by
  obtain ⟨-, L, -, -, rfl, hfill⟩ := h
  rw [← hfill]
  exact infix_fill hp _

namespace Part

variable {p q : Part}

lemma nodes_inside (h : q ∈ p.parts d) : q.expr.nodes <:+: p.expr.nodes.tail :=
  Expr.isClosed_tail p.expr _ (mem_nodes h)

lemma length_nodes_lt (h : q ∈ p.parts d) : q.expr.nodes.length < p.expr.nodes.length := by
  have hle := (nodes_inside h).length_le
  rw [Expr.nodes_eq_cons p.expr, length_cons]
  omega

/-- What is asked of a part holds of its parts. -/
lemma conditions_of_mem (h : q ∈ p.parts d) (hnames : p.expr.HasQuietNames aliases)
    (hfills : d.FillsSafely p.expr) : q.expr.HasQuietNames aliases ∧ d.FillsSafely q.expr := by
  have hsub : ∀ x ∈ q.expr.nodes, x ∈ p.expr.nodes := fun x hx =>
    (tail_suffix _).subset ((nodes_inside h).subset hx)
  exact ⟨⟨fun x hx => hnames.param x (hsub _ hx), fun m hm => hnames.column m (hsub _ hm),
    fun m hm => hnames.placeholderFree m (hsub _ hm)⟩,
    fun method receiver args hcall => hfills method receiver args (hsub _ hcall)⟩

lemma rendered_iff : p.Rendered d q ↔ p = q ∨ ∃ x ∈ p.parts d, x.Rendered d q :=
  Relation.ReflTransGen.cases_head_iff

variable {text : String}

/-- What passes from the parts to a part holds of all that can be written. -/
@[elab_as_elim]
lemma written_induction (hd : d.catalog.IsQuiet) {motive : Part → String → Prop}
    (step : ∀ p text, Written d aliases (p.parts d) p.comparands text →
      p.text d aliases = .ok text →
        (∀ q ∈ p.parts d, ∀ s, q.text d aliases = .ok s → motive q s) → motive p text)
    {p : Part} (hnames : p.expr.HasQuietNames aliases) (hfills : d.FillsSafely p.expr)
    (h : p.text d aliases = .ok text) : motive p text := by
  induction hn : p.expr.nodes.length using Nat.strong_induction_on generalizing p text with
  | _ n ih =>
    refine step p text (written hd hnames hfills h) h fun q hq s hs => ?_
    obtain ⟨hnames, hfills⟩ := conditions_of_mem hq hnames hfills
    exact ih _ (hn ▸ length_nodes_lt hq) hnames hfills hs rfl

/-- Every part rendered in a text can be written, and stands in it. -/
theorem text_of_rendered (hd : d.catalog.IsQuiet) (hnames : p.expr.HasQuietNames aliases)
    (hfills : d.FillsSafely p.expr) (h : p.text d aliases = .ok text) :
    ∀ q, p.Rendered d q → ∃ s, q.text d aliases = .ok s ∧ s.toList <:+: text.toList := by
  refine written_induction hd (fun p text hwritten htext ih => ?_) hnames hfills h
  intro q hq
  rcases rendered_iff.1 hq with rfl | ⟨x, hx, hq⟩
  · exact ⟨text, htext, infix_refl _⟩
  · obtain ⟨t, ht⟩ := hwritten.texts x hx
    obtain ⟨s, hs, hinside⟩ := ih x hx t ht q hq
    refine ⟨s, hs, hinside.trans ?_⟩
    rw [← chars_of_text ht]
    exact hwritten.stands_in hx

/-- NULL is compared in a text if a comparand in it begins with NULL. -/
theorem comparesNull_iff (hd : d.catalog.IsQuiet) (hnames : p.expr.HasQuietNames aliases)
    (hfills : d.FillsSafely p.expr) (h : p.text d aliases = .ok text) :
    IsHushed text.toList ∧ (comparesNull text.toList ↔
      ∃ q, p.Rendered d q ∧ ∃ r ∈ q.comparands, startsNull (r.chars d aliases)) := by
  refine written_induction hd (fun p text hwritten htext ih => ?_) hnames hfills h
  have hparts : ∀ q ∈ p.parts d, IsHushed (q.chars d aliases) ∧
      (comparesNull (q.chars d aliases) ↔
        ∃ x, q.Rendered d x ∧ ∃ r ∈ x.comparands, startsNull (r.chars d aliases)) := by
    intro q hq
    obtain ⟨s, hs⟩ := hwritten.texts q hq
    rw [chars_of_text hs]
    exact ih q hq s hs
  obtain ⟨hhushed, hcompares⟩ := hwritten.comparesNull_iff fun q hq => (hparts q hq).1
  refine ⟨hhushed, hcompares.trans ⟨?_, ?_⟩⟩
  · rintro (⟨q, hq, hcompares⟩ | ⟨r, hr, hstarts⟩)
    · obtain ⟨x, hx, hfound⟩ := (hparts q hq).2.1 hcompares
      exact ⟨x, rendered_iff.2 (.inr ⟨q, hq, hx⟩), hfound⟩
    · exact ⟨p, .refl, r, hr, hstarts⟩
  · rintro ⟨x, hx, r, hr, hstarts⟩
    rcases rendered_iff.1 hx with rfl | ⟨q, hq, hx⟩
    · exact .inr ⟨r, hr, hstarts⟩
    · exact .inl ⟨q, hq, (hparts q hq).2.2 ⟨x, hx, r, hr, hstarts⟩⟩

/-! ## Comparisons with null -/

/-- The other operand of a comparison with null, with the test it stands for. -/
def nullTested? (p : Part) : Option (Expr × String) :=
  match p.expr with
  | .binary op left right => Filter.nullTested? op left right
  | _ => none

/-- A comparison with null is written as a null test of the other operand. -/
def IsTested (d : Dialect) (aliases : AliasTable) (p : Part) : Prop :=
  ∀ operand test, p.nullTested? = some (operand, test) →
    ∃ place s, operand.filterText d aliases .value = .ok s ∧
      p.text d aliases = .ok (Place.wrap place (s ++ test))

lemma operation_ne_wrap {op : BinaryOp} {test : String} (htest : Filter.nullTest? op = some test)
    (l r s : String) (place : Place) : op.text l r ≠ place.wrap (s ++ test) := by
  have hbrackets : ∃ sign : String, op.text l r = "(" ++ l ++ sign ++ r ++ ")" := by
    cases op with
    | equal => exact ⟨" = ", by simp [BinaryOp.text, BinaryOp.symbol, String.append_assoc]⟩
    | notEqual => exact ⟨" != ", by simp [BinaryOp.text, BinaryOp.symbol, String.append_assoc]⟩
    | _ => cases htest
  have hend : ∃ rest : String, test = rest ++ "L" := by
    cases op with
    | equal => cases htest; exact ⟨" IS NUL", by decide⟩
    | notEqual => cases htest; exact ⟨" IS NOT NUL", by decide⟩
    | _ => cases htest
  obtain ⟨sign, hsign⟩ := hbrackets
  obtain ⟨rest, rfl⟩ := hend
  have hplain : "(" ++ l ++ sign ++ r ++ ")" ≠ s ++ (rest ++ "L") := by
    intro heq
    have hlast := congrArg (fun t : String => t.toList.getLast?) heq
    simp only [String.toList_append, getLast?_append] at hlast
    cases hlast
  rw [hsign]
  cases place with
  | value => exact hplain
  | condition => exact hplain
  | negated =>
    intro heq
    have hfirst := congrArg (fun t : String => t.toList.head?) heq
    simp [Place.wrap] at hfirst

lemma isTested_iff (h : p.text d aliases = .ok text) :
    p.IsTested d aliases ↔ (p.writer = .scalar → p.nullTested? = none) := by
  obtain ⟨writer, e⟩ := p
  constructor
  · rintro htested rfl
    cases hnull : nullTested? ⟨.scalar, e⟩ with
    | none => rfl
    | some found =>
      obtain ⟨operand, test⟩ := found
      obtain ⟨place, s, -, hs⟩ := htested operand test hnull
      cases e with
      | binary op left right =>
        obtain ⟨l, -, hl⟩ := ok_of_bind hs
        obtain ⟨r, -, hr⟩ := ok_of_bind hl
        have htest := (Filter.nullTest?_of_nullTested? hnull).1
        exact absurd (Except.ok.inj hr) (operation_ne_wrap htest l r s place)
      | _ => cases hnull
  · intro hinside operand test hnull
    cases writer with
    | scalar =>
      rw [hinside rfl] at hnull
      cases hnull
    | filter place =>
      cases e with
      | binary op left right =>
        have hbody : (Expr.binary op left right).filterText d aliases place = .ok text := h
        have hfound : Filter.nullTested? op left right = some (operand, test) := hnull
        rw [Expr.filterText_binary, hfound, Option.elim_some] at hbody
        obtain ⟨s, hs, hbody⟩ := ok_of_bind hbody
        exact ⟨place, s, hs, h.trans hbody.symm⟩
      | _ => cases hnull

end Part

/-- The parts of a row filter can be written, and their texts stand in it. Each comparison with the
null constant is a null test of the other operand, and nothing is compared with NULL, exactly if no
comparison with the null constant stands inside a call and no comparand begins with NULL. -/
theorem Lambda.filterBody_nullTests_iff {predicate : Lambda} {text : String}
    (hd : d.catalog.IsQuiet) (hnames : predicate.body.HasQuietNames aliases)
    (hfills : d.FillsSafely predicate.body) (h : predicate.filterBody d aliases = .ok text) :
    (∀ p, Part.Rendered d ⟨.filter .condition, predicate.body⟩ p →
      ∃ s, p.text d aliases = .ok s ∧ s.toList <:+: text.toList) ∧
    (((∀ p, Part.Rendered d ⟨.filter .condition, predicate.body⟩ p → p.IsTested d aliases) ∧
        ¬ nullComparison <:+: lexemes text) ↔
      ∀ p, Part.Rendered d ⟨.filter .condition, predicate.body⟩ p →
        (p.writer = .scalar → p.nullTested? = none) ∧
          ∀ q ∈ p.comparands, startsNull (q.chars d aliases) = false) := by
  have htext : Part.text d aliases ⟨.filter .condition, predicate.body⟩ = .ok text :=
    filterText_of_filterBody h
  have hrendered := Part.text_of_rendered hd hnames hfills htext
  have hcompares := (Part.comparesNull_iff hd hnames hfills htext).2
  refine ⟨hrendered, ?_⟩
  have hnull : nullComparison <:+: lexemes text ↔ ∃ p,
      Part.Rendered d ⟨.filter .condition, predicate.body⟩ p ∧
        ∃ q ∈ p.comparands, startsNull (q.chars d aliases) = true := by
    rw [← hcompares]
    exact (Watch.sees_idle_iff _).symm
  rw [hnull]
  constructor
  · rintro ⟨htested, hnone⟩ p hp
    obtain ⟨s, hs, -⟩ := hrendered p hp
    refine ⟨(Part.isTested_iff hs).1 (htested p hp), fun q hq => ?_⟩
    rw [Bool.eq_false_iff]
    exact fun hstarts => hnone ⟨p, hp, q, hq, hstarts⟩
  · intro hall
    refine ⟨fun p hp => ?_, ?_⟩
    · obtain ⟨s, hs, -⟩ := hrendered p hp
      exact (Part.isTested_iff hs).2 (hall p hp).1
    · rintro ⟨p, hp, q, hq, hstarts⟩
      rw [(hall p hp).2 q hq] at hstarts
      cases hstarts

end

/-- The comparison of an amount with null. -/
def missingAmount : Expr :=
  .binary .equal (.member (.param ⟨"o", .unknown⟩) "A" .int false) (.const .null)

/-- The rows without amount, through a call. -/
def missingRows : Lambda where
  params := [⟨"o", .unknown⟩]
  body := .call ⟨"IfNull", .onType, .bool, none⟩ none [missingAmount, .const (.bool true)]

/-- The comparison stands inside the call, so the amount is compared with NULL. -/
theorem Lambda.filterBody_nullTests_missingRows :
    missingRows.filterBody {} {} = .ok "IFNULL((A = NULL), true)" ∧
      Part.Rendered {} ⟨.filter .condition, missingRows.body⟩ ⟨.scalar, missingAmount⟩ ∧
      ¬ ((∀ p, Part.Rendered {} ⟨.filter .condition, missingRows.body⟩ p → p.IsTested {} {}) ∧
        ¬ nullComparison <:+: lexemes "IFNULL((A = NULL), true)") := by
  have hrule : Catalog.builtin.get? "IfNull" = some (.exact "IFNULL" 2) :=
    (NameMap.get?_ofList _ _).trans (by decide)
  have htext : missingRows.filterBody {} {} = .ok "IFNULL((A = NULL), true)" := by
    decide +kernel
  have hnames : missingRows.body.HasQuietNames {} := by
    have hcolumn : ∀ m : Member, m.toExpr ∈ missingRows.body.nodes →
        Filter.columnText {} m = "A" := by
      intro m hm
      obtain ⟨target, name, type, isKey⟩ := m
      obtain ⟨rfl, rfl, -⟩ : target = .param ⟨"o", .unknown⟩ ∧ name = "A" ∧ _ := by
        simpa [missingRows, missingAmount, Expr.nodes, Expr.nodesOf, Expr.nodesOf?,
          Member.toExpr] using hm
      rfl
    refine ⟨fun p hp => ?_, fun m hm => ?_, fun m hm => ?_⟩
    · obtain rfl : p = ⟨"o", .unknown⟩ := by
        simpa [missingRows, missingAmount, Expr.nodes, Expr.nodesOf, Expr.nodesOf?] using hp
      decide
    · rw [hcolumn m hm]
      decide
    · rw [hcolumn m hm]
      exact .of_braceFree (by decide)
  have hfills : Dialect.FillsSafely {} missingRows.body := by
    intro method receiver args hcall htemplate
    obtain ⟨rfl, -⟩ : method = ⟨"IfNull", .onType, .bool, none⟩ ∧ _ := by
      simpa [missingRows, missingAmount, Expr.nodes, Expr.nodesOf, Expr.nodesOf?] using hcall
    rw [Dialect.fillsTemplate, hrule] at htemplate
    cases htemplate
  have hinside : Part.Rendered {} ⟨.filter .condition, missingRows.body⟩
      ⟨.scalar, missingAmount⟩ := by
    have hoperands : Method.writtenOperands {} ⟨"IfNull", .onType, .bool, none⟩ none
        [missingAmount, .const (.bool true)] = [missingAmount, .const (.bool true)] := by
      rw [Method.writtenOperands, hrule]
      rfl
    refine .single (mem_map.2 ⟨missingAmount, ?_, rfl⟩)
    rw [hoperands]
    exact mem_cons_self ..
  refine ⟨htext, hinside, fun hall => ?_⟩
  obtain ⟨-, hiff⟩ :=
    Lambda.filterBody_nullTests_iff Catalog.isQuiet_builtin hnames hfills htext
  have hnone := (hiff.1 hall _ hinside).1 rfl
  cases hnone

end StreamQuery
