import Mathlib.Algebra.Field.Rat
import Mathlib.Algebra.Order.Ring.Rat
import Mathlib.Data.List.Pairwise
import Mathlib.Tactic.NormNum
import StreamQuery.Proofs.HubColumns

/-!
# Rolling up per-second rows

A hub has one row for each second with raw rows. It holds the number of raw rows, the sums, minima
and maxima of the aggregated columns, and under the name of each member that is one call, up to its
sign, the value of this member over the second (`hubTable`).

The column of a member should have the value of the member over all raw rows of a group. It has it
if the member is one call of `Sum`, `Min`, `Max` or `Average`. In most other cases it has not:

* a count counts the seconds and not the raw rows;
* behind a minus sign, a call reads values that have the sign already, and an average is taken of
  sums;
* an operation reads the hub column of its first call only; unless that column has the name of the
  member, it shows the value of the last second.

`hub_column_value_iff` says exactly which members keep their value.
-/

namespace StreamQuery

open List

/-! ## What a column says -/

/-- The columns of a record are written from a hub, by its plan. -/
structure ColumnContext.WritesHub (c : ColumnContext) (projection : Lambda)
    (typeName : Option String) (members : List (String × Expr)) : Prop where
  body : projection.body = .record typeName members
  /-- The plan is that of the projection; the alias of the hub has no closing bracket. -/
  hub : ∃ aliasName, ')' ∉ aliasName.toList ∧
    c.hub = some ⟨HubPlan.ofOutline (Outline.ofProjection projection true) none, aliasName⟩
  catalog : c.dialect.catalog.WritesAggregates
  types : c.types = []
  exclude : c.exclude = NameSet.empty

/-- A member that a plan tells from the others: its name is not blank, not that of the raw window
start, and no other member has it, ignoring case. -/
structure OwnName (members : List (String × Expr)) (name : String) (e : Expr) : Prop where
  mem : (name, e) ∈ members
  notBlank : Text.allBlank name = false
  notRaw : Text.sameName name HubPlan.windowStartRaw = false
  unique : ∀ m ∈ members, Text.sameName m.1 name = true → m = (name, e)

/-- No column gets a number: the names of the members differ from each other and from those of the
grouping keys. -/
def ColumnContext.NamesApart (c : ColumnContext) (members : List (String × Expr)) : Prop :=
  members.Pairwise (fun a b => a.1 ≠ b.1) ∧ ∀ key ∈ c.keyColumns, ∀ m ∈ members, m.1 ≠ key.2

/-- A member's column has a text, and is shown if no name gets a number. -/
def ColumnContext.Writes (c : ColumnContext) (projection : Lambda) (members : List (String × Expr))
    (name : String) (e : Expr) (text : String) : Prop :=
  c.columnText name e = .ok text ∧ (c.NamesApart members →
    ∀ items, c.items projection = .ok items → columnItem (text, name) ∈ items)

section

variable {c : ColumnContext} {projection : Lambda} {typeName : Option String}
  {members : List (String × Expr)} {name : String} {e : Expr} {f : Formula}

/-- The rule of a member is its own, and a formula is not left out. -/
lemma ColumnContext.WritesHub.rule (hc : c.WritesHub projection typeName members)
    (hm : OwnName members name e) (h : e.Means f) :
    c.rule? (some name) =
        some ⟨f.hubTarget name, some ((f.soleCall?.map Aggregate.method).getD "AVG"), false⟩ ∧
      c.excludes name = false := by
  obtain ⟨aliasName, -, hhub⟩ := hc.hub
  have hmembers : (Outline.ofProjection projection true).members =
      members.map fun m => Outline.memberOf m.1 m.2 := by
    unfold Outline.ofProjection
    rw [hc.body]
  have hmember : Outline.memberOf name e ∈ (Outline.ofProjection projection true).members := by
    rw [hmembers]
    exact mem_map.2 ⟨(name, e), hm.mem, rfl⟩
  have hunique : ∀ m' ∈ (Outline.ofProjection projection true).members,
      Text.sameName m'.label (Outline.memberOf name e).label →
        m' = Outline.memberOf name e := by
    rw [hmembers]
    intro m' hm' hsame
    obtain ⟨m, hmem, rfl⟩ := mem_map.1 hm'
    rw [hm.unique m hmem hsame]
  have hrule := @HubPlan.rule?_ofOutline none _ _ hmember hunique
  have hexclude := @HubPlan.excludes_ofOutline none _ _ hmember hunique
  rw [h.memberRule? hm.notBlank hm.notRaw] at hrule
  rw [h.dropsMember hm.notRaw] at hexclude
  constructor
  · unfold rule?
    rw [hhub]
    exact hrule
  · unfold excludes
    rw [hhub, hc.exclude]
    exact hexclude

/-- The column of a member that is a formula says what the hub gives for it. -/
theorem writes_hubForm (hc : c.WritesHub projection typeName members) (hm : OwnName members name e)
    (h : e.Means f) : ∃ text, c.Writes projection members name e text ∧
      Formula.read? text = if (f.hubForm name).isSpaced then some (f.hubForm name) else none := by
  obtain ⟨aliasName, halias, hhub⟩ := hc.hub
  obtain ⟨hrule, hexcludes⟩ := hc.rule hm h
  obtain ⟨text, htext, hreads⟩ := reads_columnText hc.catalog hhub halias h hm.notBlank hrule
  refine ⟨text, ⟨htext, fun hapart items hitems => ?_⟩, hreads.read?⟩
  unfold ColumnContext.items at hitems
  rw [hc.body] at hitems
  obtain ⟨l, hl, hitems⟩ := ok_of_bind hitems
  cases hitems
  have hkey : e.isGroupKey = false := by
    have hpart := h.isGroupKeyPart
    unfold Expr.isGroupKeyPart at hpart
    exact (Bool.or_eq_false_iff.1 hpart).1
  have hmembers := ColumnContext.addMembers_of_ofRecord hl
  obtain ⟨text', htext', hitem⟩ := (mem_items_of_addMembers hmembers hapart.1 hapart.2
    fun m _ hm => nomatch hm).2 (name, e) hm.mem hkey hexcludes
  have htyped : c.typed name text' = text := by
    rw [ColumnContext.typed, hc.types]
    exact Except.ok.inj (htext'.symm.trans htext)
  rw [htyped] at hitem
  exact mem_map.2 ⟨(text, name), hitem, rfl⟩

end

/-! ## What a hub holds -/

/-- The calls of a formula. -/
def Formula.calls : Formula → List (Aggregate × String)
  | .call a column => [(a, column)]
  | .negate f => f.calls
  | .binary _ left right => left.calls ++ right.calls

/-- What the hub column of a call holds: an average looks for sums. -/
def Aggregate.stored (a : Aggregate) (column : String) : Formula :=
  match a with
  | .average => .call .sum column
  | .count => .call .count ""
  | a => .call a column

/-- What the hub column of the first call holds. -/
def Formula.firstStored : Formula → Formula
  | .call a column => a.stored column
  | .negate f => f.firstStored
  | .binary _ left _ => left.firstStored

/-- The members that are formulas, under their hub names. -/
def hubFormulas (members : List (String × Expr)) : List (String × Formula) :=
  members.filterMap fun m => m.2.formula?.map fun f => (Text.identifier m.1, f)

/-- The columns of a hub, with what they hold for each second: the number of raw rows, the sum, the
minimum and the maximum of every aggregated column, and the value of every member that is one call,
up to its sign. -/
def hubTable (members : List (String × Expr)) : List (String × Formula) :=
  ("CNT", .call .count "") ::
    ((hubFormulas members).flatMap fun m => (m.2.calls.filter fun q => q.1 ≠ .count).flatMap
      fun q => [.sum, .min, .max].map fun a => (Aggregate.hubColumn a q.2, .call a q.2)) ++
    (hubFormulas members).filter fun m => m.2.soleCall?.isSome

section

variable {members : List (String × Expr)} {name : String} {e : Expr} {f : Formula}

lemma mem_hubFormulas (hm : (name, e) ∈ members) (hf : e.formula? = some f) :
    (Text.identifier name, f) ∈ hubFormulas members :=
  mem_filterMap.2 ⟨(name, e), hm, by simp [hf]⟩

/-- A member that is one call, up to its sign, has its own hub column. -/
lemma mem_hubTable_own (hm : (name, e) ∈ members) (hf : e.formula? = some f)
    (hsole : f.soleCall?.isSome) : (Text.identifier name, f) ∈ hubTable members :=
  mem_append_right _ (mem_filter.2 ⟨mem_hubFormulas hm hf, hsole⟩)

/-- The hub column that a call looks for is there. -/
lemma mem_hubTable_call (hm : (name, e) ∈ members) (hf : e.formula? = some f) {a : Aggregate}
    {column : String} (hcall : (a, column) ∈ f.calls) (hlatest : a ≠ .latest) :
    (a.hubColumn column, a.stored column) ∈ hubTable members := by
  by_cases hcount : a = .count
  · subst hcount
    exact mem_append_left _ mem_cons_self
  · refine mem_append_left _ (mem_cons_of_mem _ (mem_flatMap.2 ⟨_, mem_hubFormulas hm hf,
      mem_flatMap.2 ⟨(a, column), mem_filter.2 ⟨hcall, by simpa using hcount⟩, ?_⟩⟩))
    cases a <;> simp_all [Aggregate.hubColumn, Aggregate.stored]

/-- The first call of a formula. -/
lemma Formula.exists_firstCall (f : Formula) : ∃ a column, (a, column) ∈ f.calls ∧
    f.firstColumn = a.hubColumn column ∧ f.firstStored = a.stored column := by
  induction f with
  | call a column => exact ⟨a, column, mem_singleton_self _, rfl, rfl⟩
  | negate f ih => exact ih
  | binary o left right ihleft _ =>
    obtain ⟨a, column, hcall, hfirst⟩ := ihleft
    exact ⟨a, column, mem_append_left _ hcall, hfirst⟩

/-- The hub holds the first column of a formula. -/
lemma mem_hubTable_first (hm : (name, e) ∈ members) (hf : e.formula? = some f)
    (hlatest : ∀ q ∈ f.calls, q.1 ≠ .latest) :
    (f.firstColumn, f.firstStored) ∈ hubTable members := by
  obtain ⟨a, column, hcall, hcolumn, hstored⟩ := f.exists_firstCall
  rw [hcolumn, hstored]
  exact mem_hubTable_call hm hf hcall (hlatest _ hcall)

end

/-- No hub column has to hold two things. -/
def HoldsOnce (members : List (String × Expr)) : Prop :=
  ∀ a ∈ hubTable members, ∀ b ∈ hubTable members, a.1 = b.1 → a.2 = b.2

section

variable {K : Type*} [Field K] [LinearOrder K]

/-- Over some rows, every formula has a value. -/
lemma Formula.exists_value {rows : List (Row K)} (h : rows ≠ []) (f : Formula) :
    ∃ v, f.value rows = some v := by
  induction f with
  | call a column =>
    obtain ⟨row, rest, rfl⟩ := exists_cons_of_ne_nil h
    cases a <;> exact ⟨_, rfl⟩
  | negate f ih =>
    obtain ⟨v, hv⟩ := ih
    exact ⟨-v, by rw [value, hv]; rfl⟩
  | binary o left right ihleft ihright =>
    obtain ⟨v, hv⟩ := ihleft
    obtain ⟨w, hw⟩ := ihright
    exact ⟨o.apply v w, by rw [value, hv, hw]; rfl⟩

variable (K) in
/-- The raw rows of a second, and its row in the hub of some members. -/
structure Second (members : List (String × Expr)) where
  rows : List (Row K)
  rows_ne_nil : rows ≠ []
  hub : Row K
  /-- The row holds what a hub holds. -/
  holds : ∀ entry ∈ hubTable members, entry.2.value rows = some (hub entry.1)

variable {members : List (String × Expr)}

/-- The count column of a second has its number of rows. -/
lemma Second.hub_count (s : Second K members) : s.hub "CNT" = s.rows.length :=
  (Option.some.inj (s.holds ("CNT", .call .count "") (mem_append_left _ mem_cons_self))).symm.trans
    (by rw [length_map])

/-- All raw rows of a group. -/
def rawRows (seconds : List (Second K members)) : List (Row K) :=
  seconds.flatMap Second.rows

/-- The rows of a group in the hub. -/
def hubRows (seconds : List (Second K members)) : List (Row K) :=
  seconds.map Second.hub

/-- The row of a hub for raw rows. -/
def hubRow (members : List (String × Expr)) (rows : List (Row K)) : Row K := fun column =>
  (((hubTable members).find? fun entry => entry.1 == column).bind fun entry =>
    entry.2.value rows).getD 0

/-- The row made for a second holds what a hub holds. -/
lemma holds_hubRow (h : HoldsOnce members) {rows : List (Row K)} (hrows : rows ≠ []) :
    ∀ entry ∈ hubTable members, entry.2.value rows = some (hubRow members rows entry.1) := by
  intro entry hentry
  have hsome : ((hubTable members).find? fun x => x.1 == entry.1).isSome :=
    find?_isSome.2 ⟨entry, hentry, beq_self_eq_true entry.1⟩
  obtain ⟨found, hfound⟩ := Option.isSome_iff_exists.1 hsome
  have hname : found.1 = entry.1 := by simpa using find?_some hfound
  have hsame : found.2 = entry.2 := h found (mem_of_find?_eq_some hfound) entry hentry hname
  obtain ⟨v, hv⟩ := entry.2.exists_value hrows
  rw [hubRow, hfound, Option.bind_some, hsame, hv, Option.getD_some]

/-- A second with given raw rows. -/
def Second.ofRows (h : HoldsOnce members) (rows : List (Row K)) (hrows : rows ≠ []) :
    Second K members :=
  ⟨rows, hrows, hubRow members rows, holds_hubRow h hrows⟩

/-- An aggregate that takes values together two at a time, over its values by second. -/
lemma value_bySecond {a : Aggregate} (hcount : a ≠ .count) (haverage : a ≠ .average) {ι : Type*}
    (rows : ι → List (Row K)) (value : Row K → K) (result : ι → K) {seconds : List ι}
    (h : ∀ s ∈ seconds, a.value ((rows s).map value) = some (result s)) :
    a.value (seconds.map result) = a.value ((seconds.flatMap rows).map value) := by
  obtain ⟨op, hop, hvalue⟩ : ∃ op : K → K → K,
      (∀ x y z, op (op x y) z = op x (op y z)) ∧ ∀ xs, a.value xs = reduce op xs := by
    cases a with
    | sum => exact ⟨(· + ·), add_assoc, fun _ => rfl⟩
    | min => exact ⟨Min.min, min_assoc, fun _ => rfl⟩
    | max => exact ⟨Max.max, max_assoc, fun _ => rfl⟩
    | latest => exact ⟨fun _ y => y, fun _ _ _ => rfl, fun _ => rfl⟩
    | average => exact absurd rfl haverage
    | count => exact absurd rfl hcount
  rw [hvalue, hvalue, map_flatMap]
  exact reduce_flatMap hop (fun s => (rows s).map value) result fun s hs => by
    rw [← hvalue]
    exact h s hs

/-- The sums divided by the row counts give the average over the raw rows. -/
lemma average_bySecond {ι : Type*} (rows : ι → List (Row K)) (hub : ι → Row K) (column : String)
    {seconds : List ι} (hrows : ∀ s ∈ seconds, rows s ≠ [])
    (hsum : ∀ s ∈ seconds, (Formula.call .sum column).value (rows s) =
      some (hub s ("SUM" ++ column)))
    (hcount : ∀ s ∈ seconds, hub s "CNT" = (rows s).length) :
    (Aggregate.average.onHub ("SUM" ++ column)).value (seconds.map hub) =
      (Formula.call .average column).value (seconds.flatMap rows) := by
  have hsums := value_bySecond (a := .sum) (by decide) (by decide) rows (fun row => row column)
    (fun s => hub s ("SUM" ++ column)) hsum
  -- A row count is a sum of ones, so it is rolled up like any other sum.
  have hcounts := value_bySecond (a := .sum) (by decide) (by decide) rows (fun _ => (1 : K))
    (fun s => hub s "CNT") fun s hs => by
      rw [hcount s hs]
      exact reduce_ones (hrows s hs)
  have hstart : ['S', 'U', 'M'] <+: ("SUM" ++ column).toList := ⟨column.toList, by simp⟩
  rw [Aggregate.onHub, if_pos ⟨rfl, hstart⟩]
  simp only [Formula.value, map_map]
  rw [show ((fun row : Row K => row ("SUM" ++ column)) ∘ hub) = fun s => hub s ("SUM" ++ column)
    from rfl, show ((fun row : Row K => row "CNT") ∘ hub) = fun s => hub s "CNT" from rfl, hsums,
    hcounts]
  by_cases hnil : seconds.flatMap rows = []
  · rw [hnil]
    rfl
  · simp only [Aggregate.value, reduce_ones hnil, length_map]
    cases reduce (· + ·) ((seconds.flatMap rows).map fun row => row column) <;> rfl

end

/-! ## Members that are one call -/

namespace Formula

/-- True for a call with the opposite sign. -/
def isNegative : Formula → Bool
  | .negate f => !f.isNegative
  | _ => false

/-- True for a formula of one call whose column keeps its value: never for a count; for an average
if it is written over the sums; for the others if the sign is not lost and not taken twice. -/
def keepsAlone (name : String) (f : Formula) : Aggregate → Bool
  | .count => false
  | .average => f.isCall || Text.sameName f.firstColumn name
  | .sum => !f.isNegative || !Text.sameName (Text.identifier name) name
  | .min | .max | .latest => !f.isNegative

section

variable {K : Type*} [Field K] [LinearOrder K] {f : Formula} {a : Aggregate}

/-- A formula of one call has its value, up to the sign. -/
lemma value_of_soleCall (h : f.soleCall? = some a) : ∃ column, (a, column) ∈ f.calls ∧
    ∀ rows : List (Row K), f.value rows = (a.value (rows.map fun row => row column)).map
      fun x => if f.isNegative then -x else x := by
  induction f with
  | call b column =>
    cases h
    exact ⟨column, mem_singleton_self _, fun rows => by simp [value, isNegative]⟩
  | negate f ih =>
    obtain ⟨column, hcall, hvalue⟩ := ih h
    refine ⟨column, hcall, fun rows => ?_⟩
    rw [value, hvalue, Option.map_map]
    cases hsign : f.isNegative <;> simp [isNegative, hsign, Function.comp_def]
  | binary o left right => cases h

/-- A sum of values with the opposite sign. -/
lemma sum_neg (xs : List K) : Aggregate.sum.value (xs.map fun x => -x) =
    (Aggregate.sum.value xs).map fun x => -x := by
  induction xs with
  | nil => rfl
  | cons x xs ih =>
    simp only [Aggregate.value] at ih ⊢
    rw [map_cons, reduce, ih, reduce]
    cases reduce (· + ·) xs with
    | none => rfl
    | some y => simp [add_comm]

/-- With its call over a hub column, a formula of one call has the value of that, up to the sign. -/
lemma value_onHub_alone (h : f.soleCall? = some a) (target : String) (rows : List (Row K)) :
    (f.onHub target).value rows = ((a.onHub target).value rows).map
      fun x => if f.isNegative then -x else x := by
  induction f with
  | call b column =>
    cases h
    simp [onHub, isNegative]
  | negate f ih =>
    rw [onHub, value, ih h, Option.map_map]
    cases hsign : f.isNegative <;> simp [isNegative, hsign, Function.comp_def]
  | binary o left right => cases h

/-- What the column of a formula of one call says. -/
lemma hubForm_alone (h : f.soleCall? = some a) (name : String) :
    f.hubForm name = if f.isCall || Text.sameName (f.hubTarget name) name then
      f.onHub (f.hubTarget name) else .call a (f.hubTarget name) := by
  rw [hubForm, h, Option.getD_some]

/-- One call reads its own column, and an average the sums. -/
lemma hubTarget_alone (h : f.soleCall? = some a) (name : String) :
    f.hubTarget name = if a = .average then f.firstColumn else Text.identifier name := by
  simp [hubTarget, h]

lemma firstColumn_alone (h : f.soleCall? = some .average) {column : String}
    (hcall : (.average, column) ∈ f.calls) : f.firstColumn = "SUM" ++ column := by
  induction f with
  | call b c =>
    cases h
    cases mem_singleton.1 hcall
    rfl
  | negate f ih => exact ih h hcall
  | binary o left right => cases h

/-- Unless it is an average, a formula of one call is read from its own hub column; the sign is
written if the column has the very name of the member. -/
lemma value_hubForm_alone (h : f.soleCall? = some a) (haverage : a ≠ .average) (name : String)
    (rows : List (Row K)) : (f.hubForm name).value rows =
      (a.value (rows.map fun row => row (Text.identifier name))).map
        fun x => if Text.sameName (Text.identifier name) name && f.isNegative then -x else x := by
  have hover : a.onHub (Text.identifier name) = .call a (Text.identifier name) := by
    simp [Aggregate.onHub, haverage]
  rw [hubForm_alone h, hubTarget_alone h, if_neg haverage]
  cases hsame : Text.sameName (Text.identifier name) name with
  | true =>
    rw [Bool.or_true, if_pos rfl, value_onHub_alone h, hover, value]
    rfl
  | false =>
    cases f with
    | call b column =>
      cases h
      simp [isCall, onHub, hover, value]
    | negate f => simp [isCall, value]
    | binary o left right => cases h

end

section

variable {K : Type*} [Field K] [LinearOrder K] {members : List (String × Expr)} {name : String}
  {e : Expr} {f : Formula} {a : Aggregate}

/-- The own hub column of a formula of one call. -/
lemma value_own (hm : (name, e) ∈ members) (hf : e.formula? = some f) (h : f.soleCall? = some a)
    (s : Second K members) : f.value s.rows = some (s.hub (Text.identifier name)) :=
  s.holds _ (mem_hubTable_own hm hf (by rw [h]; rfl))

/-- A formula of one call that keeps its value has it over every group. -/
lemma value_of_keepsAlone (hm : (name, e) ∈ members) (hf : e.formula? = some f)
    (hsole : f.soleCall? = some a) (h : f.keepsAlone name a) (seconds : List (Second K members)) :
    (f.hubForm name).value (hubRows seconds) = f.value (rawRows seconds) := by
  obtain ⟨column, hcall, hvalue⟩ := value_of_soleCall (K := K) hsole
  by_cases haverage : a = .average
  · -- the sums and the row counts are written out
    subst haverage
    rw [keepsAlone] at h
    rw [hubForm_alone hsole, hubTarget_alone hsole, if_pos rfl, if_pos h, value_onHub_alone hsole,
      firstColumn_alone hsole hcall, hubRows, average_bySecond Second.rows Second.hub column
        (fun s _ => s.rows_ne_nil)
        (fun s _ => s.holds _ (mem_hubTable_call hm hf hcall (by decide))) fun s _ => s.hub_count,
      hvalue]
    rfl
  · have hcount : a ≠ .count := by
      rintro rfl
      cases h
    have hsame : (Text.sameName (Text.identifier name) name && f.isNegative) = false := by
      cases a <;> cases hsign : f.isNegative <;> simp_all [keepsAlone]
    -- a sign can be taken to the rows
    have hsigned : ∀ rows : List (Row K), f.value rows = a.value (rows.map fun row =>
        if f.isNegative then -row column else row column) := by
      intro rows
      rw [hvalue]
      cases hsign : f.isNegative with
      | false => simp
      | true =>
        have hsum : a = .sum := by
          cases a <;> simp_all [keepsAlone]
        subst hsum
        simp only [if_true]
        rw [← sum_neg, map_map]
        rfl
    rw [value_hubForm_alone hsole haverage, hsame, hsigned, hubRows, rawRows, map_map]
    simp only [Bool.false_eq_true, if_false, Option.map_id_fun', id_eq]
    exact value_bySecond hcount haverage Second.rows _ (fun s => s.hub (Text.identifier name))
      fun s _ => (hsigned s.rows).symm.trans (value_own hm hf hsole s)

/-- A formula of one call that has its value over every group keeps it. -/
lemma keepsAlone_of_value [IsStrictOrderedRing K] (hholds : HoldsOnce members)
    (hm : (name, e) ∈ members) (hf : e.formula? = some f) (hsole : f.soleCall? = some a)
    (hlatest : a ≠ .latest) (h : ∀ seconds : List (Second K members),
      (f.hubForm name).value (hubRows seconds) = f.value (rawRows seconds)) :
    f.keepsAlone name a := by
  obtain ⟨column, hcall, hvalue⟩ := value_of_soleCall (K := K) hsole
  -- a written sign turns round the one that the hub column has
  have hsame : a ≠ .average → a ≠ .count → f.isNegative →
      Text.sameName (Text.identifier name) name = false := by
    intro haverage hcount hsign
    have hvalueOne : ∀ x : K, a.value [x] = some x := by
      intro x
      cases a <;> simp_all [Aggregate.value, reduce]
    have hone := h [.ofRows hholds [fun _ => 1] (by simp)]
    have hown := value_own hm hf hsole (.ofRows hholds [fun _ => (1 : K)] (by simp))
    rw [value_hubForm_alone hsole haverage] at hone
    simp [hvalue, hsign, hubRows, rawRows, hvalueOne, Second.ofRows] at hone hown
    rw [← hown] at hone
    split_ifs at hone with hname
    · norm_num at hone
    · simpa using hname
  cases a with
  | latest => exact absurd rfl hlatest
  | count =>
    -- one second with two rows
    have hpair := h [.ofRows hholds [fun _ => 1, fun _ => 1] (by simp)]
    rw [value_hubForm_alone hsole (by decide), hvalue] at hpair
    simp [hubRows, rawRows, Second.ofRows, Aggregate.value] at hpair
    split_ifs at hpair <;> norm_num at hpair
  | average =>
    by_contra hlost
    rw [keepsAlone] at hlost
    -- the average of one sum of two rows
    let s : Second K members := .ofRows hholds [fun _ => 1, fun _ => 1] (by simp)
    have hsum : (Formula.call .sum column).value s.rows = some (s.hub ("SUM" ++ column)) :=
      s.holds _ (mem_hubTable_call hm hf hcall (by decide))
    have hpair := h [s]
    rw [hubForm_alone hsole, hubTarget_alone hsole, if_pos rfl, if_neg hlost,
      firstColumn_alone hsole hcall, hvalue] at hpair
    simp [hubRows, rawRows, value, s, Second.ofRows, Aggregate.value, reduce] at hpair hsum
    rw [← hsum] at hpair
    split_ifs at hpair <;> norm_num at hpair
  | sum => cases hsign : f.isNegative <;> simp_all [keepsAlone]
  | min | max =>
    rw [keepsAlone, Bool.not_eq_true']
    by_contra hsign
    rw [Bool.not_eq_false] at hsign
    -- two seconds with zero and minus one
    have htwo := h [.ofRows hholds [fun _ => 0] (by simp), .ofRows hholds [fun _ => 1] (by simp)]
    have hzero := value_own hm hf hsole (.ofRows hholds [fun _ => (0 : K)] (by simp))
    have hone := value_own hm hf hsole (.ofRows hholds [fun _ => (1 : K)] (by simp))
    rw [value_hubForm_alone hsole (by decide), hsame (by decide) (by decide) hsign] at htwo
    simp [hvalue, hsign, hubRows, rawRows, Aggregate.value, Second.ofRows, reduce]
      at hzero hone htwo
    rw [← hzero, ← hone] at htwo
    norm_num at htwo

end

end Formula

/-! ## Members that are operations -/

namespace Formula

section

variable {K : Type*} [Field K] [LinearOrder K] {members : List (String × Expr)} {name : String}
  {e : Expr} {f : Formula}

/-- A hub row with the first column of a formula and the row count only. -/
def firstRow (f : Formula) (rows : List (Row K)) : Row K := fun column =>
  if column = f.firstColumn then (f.firstStored.value rows).getD 0 else rows.length

variable (K) in
/-- The calls of a formula have their values together when all of them read the column of the first
call, however the rows are split. -/
def SharesFirst (f : Formula) : Prop :=
  ∀ parts : List (List (Row K)), [] ∉ parts →
    (f.onHub f.firstColumn).value (parts.map f.firstRow) = f.value parts.flatten

/-- Over a hub column, only that column and the row count are read. -/
lemma value_onHub_congr (target : String) {ι : Type*} {left right : ι → Row K}
    (h : ∀ i, left i target = right i target ∧ left i "CNT" = right i "CNT") (parts : List ι)
    (f : Formula) : (f.onHub target).value (parts.map left) =
      (f.onHub target).value (parts.map right) := by
  have htarget : ((fun row : Row K => row target) ∘ left) = (fun row => row target) ∘ right :=
    funext fun i => (h i).1
  have hcount : ((fun row : Row K => row "CNT") ∘ left) = (fun row => row "CNT") ∘ right :=
    funext fun i => (h i).2
  induction f with
  | call a column =>
    rw [onHub, Aggregate.onHub]
    split <;> simp only [value, map_map, htarget, hcount]
  | negate f ih => rw [onHub, value, value, ih]
  | binary o left right ihleft ihright => rw [onHub, value, value, ihleft, ihright]

/-- The hub columns that a formula of one column reads. -/
lemma firstRow_hub (hm : (name, e) ∈ members) (hf : e.formula? = some f)
    (hlatest : ∀ q ∈ f.calls, q.1 ≠ .latest) (s : Second K members) :
    s.hub f.firstColumn = f.firstRow s.rows f.firstColumn ∧
      s.hub "CNT" = f.firstRow s.rows "CNT" := by
  have hfirst : f.firstStored.value s.rows = some (s.hub f.firstColumn) :=
    s.holds _ (mem_hubTable_first hm hf hlatest)
  have hcolumn : s.hub f.firstColumn = f.firstRow s.rows f.firstColumn := by
    rw [firstRow, if_pos rfl, hfirst, Option.getD_some]
  refine ⟨hcolumn, ?_⟩
  by_cases hcount : "CNT" = f.firstColumn
  · rw [hcount, hcolumn]
  · rw [firstRow, if_neg hcount, s.hub_count]

/-- With all calls over its first column, a formula reads no more of a hub than that and the row
counts. -/
lemma value_onHub_first (hm : (name, e) ∈ members) (hf : e.formula? = some f)
    (hlatest : ∀ q ∈ f.calls, q.1 ≠ .latest) (seconds : List (Second K members)) :
    (f.onHub f.firstColumn).value (hubRows seconds) =
      (f.onHub f.firstColumn).value ((seconds.map Second.rows).map f.firstRow) := by
  rw [hubRows, map_map]
  exact value_onHub_congr _ (fun s => firstRow_hub hm hf hlatest s) seconds f

/-- The latest value of its first column is not the value of a formula. -/
lemma not_latest [IsStrictOrderedRing K] (hholds : HoldsOnce members) (hm : (name, e) ∈ members)
    (hf : e.formula? = some f) (hlatest : ∀ q ∈ f.calls, q.1 ≠ .latest) :
    ¬ ∀ seconds : List (Second K members),
      (Formula.call .latest f.firstColumn).value (hubRows seconds) = f.value (rawRows seconds) := by
  intro h
  -- the rows of the first second are not seen
  have hlast : ∀ x y : Row K, f.firstStored.value [y] = f.firstStored.value [x, y] := by
    intro x y
    have hstored : ∀ s : Second K members,
        f.firstStored.value s.rows = some (s.hub f.firstColumn) :=
      fun s => s.holds _ (mem_hubTable_first hm hf hlatest)
    have hboth := h [.ofRows hholds [x, y] (by simp)]
    have hparts := h [.ofRows hholds [x] (by simp), .ofRows hholds [y] (by simp)]
    have hraw : rawRows [Second.ofRows hholds [x] (by simp), .ofRows hholds [y] (by simp)] =
      rawRows [Second.ofRows hholds [x, y] (by simp)] := rfl
    rw [hraw, ← hboth] at hparts
    exact (hstored (.ofRows hholds [y] (by simp))).trans
      (hparts.trans (hstored (.ofRows hholds [x, y] (by simp))).symm)
  obtain ⟨a, column, hcall, -, hfirst⟩ := f.exists_firstCall
  rw [hfirst] at hlast
  have hzero := hlast (fun _ => 0) fun _ => 1
  have hone := hlast (fun _ => 1) fun _ => 0
  have htwo := hlast (fun _ => 1) fun _ => 1
  cases a with
  | latest => exact hlatest _ hcall rfl
  | _ => simp [Aggregate.stored, value, Aggregate.value, reduce] at hzero hone htwo

/-- A hub column tells what a call that looks for it has stored there. -/
lemma stored_of_hubColumn {a b : Aggregate} {column column' : String}
    (ha : a ≠ .count ∧ a ≠ .latest) (hb : b ≠ .count ∧ b ≠ .latest)
    (h : a.hubColumn column = b.hubColumn column') : a.stored column = b.stored column' := by
  replace h := congrArg String.toList h
  cases a <;> cases b <;>
    simp_all [Aggregate.hubColumn, Aggregate.stored, String.toList_append, String.toList_inj]

/-- A formula has the values of its calls. -/
lemma value_onHub_of_calls {target : String} {rows rows' : List (Row K)}
    (h : ∀ q ∈ f.calls, (q.1.onHub target).value rows = (call q.1 q.2).value rows') :
    (f.onHub target).value rows = f.value rows' := by
  induction f with
  | call a column => exact h (a, column) (mem_singleton_self _)
  | negate f ih => rw [onHub, value, value, ih h]
  | binary o left right ihleft ihright =>
    rw [onHub, value, value, ihleft fun q hq => h q (mem_append_left _ hq),
      ihright fun q hq => h q (mem_append_right _ hq)]

/-- Calls that look for the same column share it. -/
lemma sharesFirst_of_calls (h : ∀ q ∈ f.calls, (q.1 ≠ .count ∧ q.1 ≠ .latest) ∧
    q.1.hubColumn q.2 = f.firstColumn) : f.SharesFirst K := by
  intro parts hparts
  have hrows : ∀ rows ∈ parts, rows ≠ [] := fun rows hmem hnil => hparts (hnil ▸ hmem)
  obtain ⟨b, column', hb, hcolumn, hstored⟩ := f.exists_firstCall
  refine value_onHub_of_calls fun q hq => ?_
  obtain ⟨⟨hcount, hlatest⟩, htarget⟩ := h q hq
  have hheld : ∀ rows ∈ parts, (q.1.stored q.2).value rows =
      some (f.firstRow rows f.firstColumn) := by
    intro rows hmem
    obtain ⟨v, hv⟩ := f.firstStored.exists_value (hrows rows hmem)
    rw [stored_of_hubColumn ⟨hcount, hlatest⟩ (h _ hb).1 (htarget.trans hcolumn), ← hstored, hv,
      firstRow, if_pos rfl, hv, Option.getD_some]
  rw [← flatMap_id]
  by_cases haverage : q.1 = .average
  · rw [haverage] at hheld htarget ⊢
    rw [← htarget] at hheld ⊢
    refine average_bySecond id f.firstRow q.2 hrows hheld fun rows hmem => if_neg fun hname => ?_
    have hchars := congrArg String.toList hname
    simp [← htarget, Aggregate.hubColumn, String.toList_append] at hchars
  · have hover : q.1.onHub f.firstColumn = .call q.1 f.firstColumn := by
      simp [Aggregate.onHub, haverage]
    rw [hover, value, value, map_map]
    refine value_bySecond hcount haverage id (fun row => row q.2)
      (fun rows => f.firstRow rows f.firstColumn) fun rows hmem => ?_
    rw [← hheld rows hmem]
    cases hq : q.1 <;> simp_all [Aggregate.stored, value]

variable (K) in
/-- A formula keeps its value in a hub: one call by `keepsAlone`; an operation if it has the name of
the column of its first call and its calls share that column. -/
def RollsUp (name : String) (f : Formula) : Prop :=
  match f.soleCall? with
  | some a => f.keepsAlone name a
  | none => Text.sameName f.firstColumn name ∧ f.SharesFirst K

/-- A formula of one call rolls up exactly if it keeps its value alone. -/
lemma rollsUp_alone {a : Aggregate} (h : f.soleCall? = some a) :
    f.RollsUp K name ↔ f.keepsAlone name a := by
  rw [RollsUp, h]

/-- What the column of an operation says. -/
lemma hubForm_operation (h : f.soleCall? = none) (name : String) : f.hubForm name =
    if Text.sameName f.firstColumn name then f.onHub f.firstColumn
    else .call .latest f.firstColumn := by
  have hcall : f.isCall = false := by
    cases f with
    | call a column => cases h
    | _ => rfl
  simp [hubForm, hubTarget, h, hcall]

/-- A formula that rolls up has its value over every group. -/
lemma RollsUp.value_hubForm (h : f.RollsUp K name) (hm : (name, e) ∈ members)
    (hf : e.formula? = some f) (hlatest : ∀ q ∈ f.calls, q.1 ≠ .latest)
    (seconds : List (Second K members)) :
    (f.hubForm name).value (hubRows seconds) = f.value (rawRows seconds) := by
  unfold RollsUp at h
  split at h
  case h_1 a hsole => exact value_of_keepsAlone hm hf hsole h seconds
  case h_2 hsole =>
    rw [hubForm_operation hsole, if_pos h.1, value_onHub_first hm hf hlatest, h.2 _ ?_, rawRows,
      flatMap_def]
    intro hnil
    obtain ⟨s, -, hs⟩ := mem_map.1 hnil
    exact s.rows_ne_nil hs

/-- A formula that has its value over every group rolls up. -/
lemma rollsUp_of_value [IsStrictOrderedRing K] (hholds : HoldsOnce members)
    (hm : (name, e) ∈ members) (hf : e.formula? = some f) (hlatest : ∀ q ∈ f.calls, q.1 ≠ .latest)
    (h : ∀ seconds : List (Second K members),
      (f.hubForm name).value (hubRows seconds) = f.value (rawRows seconds)) :
    f.RollsUp K name := by
  unfold RollsUp
  split
  case h_1 a hsole =>
    obtain ⟨column, hcall, -⟩ := value_of_soleCall (K := K) hsole
    exact keepsAlone_of_value hholds hm hf hsole (hlatest _ hcall) h
  case h_2 hsole =>
    rw [hubForm_operation hsole] at h
    split_ifs at h with hname
    · refine ⟨hname, fun parts hparts => ?_⟩
      have hrows : ∀ rows ∈ parts, rows ≠ [] := fun rows hmem hnil => hparts (hnil ▸ hmem)
      have hvalue := h (parts.pmap (Second.ofRows hholds) hrows)
      have hback : (parts.pmap (Second.ofRows hholds) hrows).map Second.rows = parts := by
        rw [map_pmap]
        exact (pmap_eq_map ..).trans (map_id _)
      rwa [value_onHub_first hm hf hlatest, rawRows, flatMap_def, hback] at hvalue
    · exact absurd h (not_latest hholds hm hf hlatest)

end

end Formula

/-! ## The values of the columns -/

section

variable {K : Type*} [Field K] [LinearOrder K] {members : List (String × Expr)}

variable (K) in
/-- A column says something that has the value of a member over every group. -/
def KeepsValue (members : List (String × Expr)) (text : String) (f : Formula) : Prop :=
  ∃ sql, Formula.read? text = some sql ∧
    ∀ seconds : List (Second K members), sql.value (hubRows seconds) = f.value (rawRows seconds)

end

/-- Every member that is a formula has a column. It keeps the value of the member if the member
rolls up and no two minus signs stand next to each other, and in no other case unless a hub column
would have to hold two things. -/
theorem hub_column_value_iff {K : Type*} [Field K] [LinearOrder K] [IsStrictOrderedRing K]
    {c : ColumnContext} {projection : Lambda} {typeName : Option String}
    {members : List (String × Expr)} (hc : c.WritesHub projection typeName members) {name : String}
    {e : Expr} (hm : OwnName members name e) {f : Formula} (hf : e.formula? = some f)
    (hlatest : ∀ q ∈ f.calls, q.1 ≠ .latest) :
    ∃ text, c.Writes projection members name e text ∧
      ((f.hubForm name).isSpaced ∧ f.RollsUp K name → KeepsValue K members text f) ∧
      (HoldsOnce members →
        (KeepsValue K members text f ↔ (f.hubForm name).isSpaced ∧ f.RollsUp K name)) := by
  obtain ⟨text, hwrites, hread⟩ := writes_hubForm hc hm (Expr.means_of_formula? hf)
  have hkeeps : (f.hubForm name).isSpaced ∧ f.RollsUp K name → KeepsValue K members text f :=
    fun h => ⟨f.hubForm name, hread.trans (if_pos h.1), h.2.value_hubForm hm.mem hf hlatest⟩
  refine ⟨text, hwrites, hkeeps, fun hholds => ⟨fun h => ?_, hkeeps⟩⟩
  obtain ⟨sql, hsql, hvalue⟩ := h
  rw [hread] at hsql
  split_ifs at hsql with hspaced
  cases hsql
  exact ⟨hspaced, Formula.rollsUp_of_value hholds hm.mem hf hlatest hvalue⟩

/-! ## Quotes by the second -/

/-- An aggregate of the bids of a group of quotes. -/
def quoteCall (a : Aggregate) : Expr :=
  .call ⟨a.method, .extending, .double, none⟩ none
    [.param ⟨"g", .grouping .string (.record "Quote")⟩,
      .lambda [⟨"q", .record "Quote"⟩]
        (.member (.param ⟨"q", .record "Quote"⟩) "Bid" .double false)]

/-- The sum of the bids with the opposite sign. -/
def quoteShort : Expr :=
  .unary .negate (quoteCall .sum) .double

/-- The span between the highest and the lowest bid. -/
def quoteSpread : Expr :=
  .binary .subtract (quoteCall .max) (quoteCall .min)

/-- The sum of the bids and their mean. -/
def quoteSum : Expr :=
  .binary .add (quoteCall .sum) (quoteCall .average)

/-- The mean and the number of the bids, and three members with signs. -/
def quoteMembers : List (String × Expr) :=
  [("Mean", quoteCall .average), ("N", quoteCall .count), ("Short", quoteShort),
    ("Spread", quoteSpread), ("SumBid", quoteSum)]

/-- The projection of a group of quotes. -/
def quoteProjection : Lambda :=
  ⟨[⟨"g", .grouping .string (.record "Quote")⟩], .record none quoteMembers⟩

/-- The projection reads a hub under the alias `o`. -/
def quoteContext : ColumnContext :=
  { hub := some ⟨HubPlan.ofOutline (Outline.ofProjection quoteProjection true) none, "o"⟩ }

lemma quoteContext_writesHub : quoteContext.WritesHub quoteProjection none quoteMembers where
  body := rfl
  hub := ⟨"o", by decide, rfl⟩
  catalog := ⟨fun _ => rfl, (NameMap.get?_ofList _ _).trans (by decide)⟩
  types := rfl
  exclude := rfl

lemma quoteMembers_ownName {name : String} {e : Expr} (h : (name, e) ∈ quoteMembers) :
    OwnName quoteMembers name e := by
  have hnames : quoteMembers.all (fun m => !Text.allBlank m.1 &&
      !Text.sameName m.1 HubPlan.windowStartRaw) := by decide
  have hdistinct : quoteMembers.Pairwise fun a b => Text.sameName a.1 b.1 = false := by decide
  have hname := all_eq_true.1 hnames _ h
  simp only [Bool.and_eq_true, Bool.not_eq_true'] at hname
  refine ⟨h, hname.1, hname.2, fun m hm hsame => ?_⟩
  have hsymm : Std.Symm fun a b : String × Expr => Text.sameName a.1 b.1 = false :=
    ⟨fun a b hab => by rwa [Text.sameName_comm]⟩
  by_contra hne
  have hdiff := List.Pairwise.forall hdistinct hm h hne
  simp [hsame] at hdiff

lemma quoteMembers_holdsOnce : HoldsOnce quoteMembers := by
  unfold HoldsOnce
  decide +kernel

/-- The mean keeps its value, and so does the operation with the name of its first column. The
number of the bids, the sum with the opposite sign and the span do not. -/
theorem hub_column_value_quotes :
    quoteContext.WritesHub quoteProjection none quoteMembers ∧ HoldsOnce quoteMembers ∧
      (∃ text, quoteContext.columnText "Mean" (quoteCall .average) = .ok text ∧
        text = "(SUM(o.SUMBID) / SUM(CNT))" ∧
          KeepsValue ℚ quoteMembers text (.call .average "BID")) ∧
      (∃ text, quoteContext.columnText "Spread" quoteSpread = .ok text ∧
        text = "LATEST_BY_OFFSET(MAXBID)" ∧
          ¬ KeepsValue ℚ quoteMembers text
            (.binary .subtract (.call .max "BID") (.call .min "BID"))) ∧
      (∃ text, quoteContext.columnText "N" (quoteCall .count) = .ok text ∧
        ¬ KeepsValue ℚ quoteMembers text (.call .count "")) ∧
      (∃ text, quoteContext.columnText "Short" quoteShort = .ok text ∧
        ¬ KeepsValue ℚ quoteMembers text (.negate (.call .sum "BID"))) ∧
      ∃ text, quoteContext.columnText "SumBid" quoteSum = .ok text ∧
        KeepsValue ℚ quoteMembers text
          (.binary .add (.call .sum "BID") (.call .average "BID")) := by
  have hkeeps : ∀ (name : String) (e : Expr) {f : Formula}, (name, e) ∈ quoteMembers →
      e.formula? = some f → (∀ q ∈ f.calls, q.1 ≠ .latest) →
        ∃ text, quoteContext.columnText name e = .ok text ∧
          (KeepsValue ℚ quoteMembers text f ↔ (f.hubForm name).isSpaced ∧ f.RollsUp ℚ name) := by
    intro name e f hm hf hlatest
    obtain ⟨text, hwrites, -, hiff⟩ := @hub_column_value_iff ℚ _ _ _ _ _ _ _
      quoteContext_writesHub _ _ (quoteMembers_ownName hm) _ hf hlatest
    exact ⟨text, hwrites.1, hiff quoteMembers_holdsOnce⟩
  have hmean : quoteContext.columnText "Mean" (quoteCall .average) =
      .ok "(SUM(o.SUMBID) / SUM(CNT))" := by decide +kernel
  have hspread : quoteContext.columnText "Spread" quoteSpread =
      .ok "LATEST_BY_OFFSET(MAXBID)" := by decide +kernel
  refine ⟨quoteContext_writesHub, quoteMembers_holdsOnce, ?_, ?_, ?_, ?_, ?_⟩
  · obtain ⟨text, htext, hiff⟩ := hkeeps "Mean" (quoteCall .average) (by simp [quoteMembers]) rfl
      (by decide)
    exact ⟨text, htext, Except.ok.inj (htext.symm.trans hmean),
      hiff.2 ⟨by decide, (Formula.rollsUp_alone rfl).2 (by decide)⟩⟩
  · obtain ⟨text, htext, hiff⟩ := hkeeps "Spread" quoteSpread (by simp [quoteMembers]) rfl
      (by decide)
    exact ⟨text, htext, Except.ok.inj (htext.symm.trans hspread),
      fun h => absurd (hiff.1 h).2.1 (by decide)⟩
  · obtain ⟨text, htext, hiff⟩ := hkeeps "N" (quoteCall .count) (by simp [quoteMembers]) rfl
      (by decide)
    exact ⟨text, htext, fun h => absurd ((Formula.rollsUp_alone rfl).1 (hiff.1 h).2) (by decide)⟩
  · obtain ⟨text, htext, hiff⟩ := hkeeps "Short" quoteShort (by simp [quoteMembers]) rfl (by decide)
    exact ⟨text, htext, fun h => absurd ((Formula.rollsUp_alone rfl).1 (hiff.1 h).2) (by decide)⟩
  · obtain ⟨text, htext, hiff⟩ := hkeeps "SumBid" quoteSum (by simp [quoteMembers]) rfl (by decide)
    exact ⟨text, htext, hiff.2 ⟨by decide, by decide, Formula.sharesFirst_of_calls (by decide)⟩⟩

end StreamQuery
