import StreamQuery.Clause.Columns
import StreamQuery.Proofs.Formulas
import StreamQuery.Proofs.HubPlans
import StreamQuery.Proofs.Identifiers

/-!
# Columns that read a hub

The plan of a hub has one rule for each output name, so all aggregates of a member read one hub
column, the target of its rule: the column of the member's own name if the member is one call, and
that of its first call if it is an operation; an average reads the column of sums.

* A call is written over the target; an average over sums divides by the row counts
  (`Aggregate.onHub`).
* Any other member is written with all its calls over the target if the target is the member's own
  name, and else it is replaced by a single call over the target (`Formula.hubForm`).

`reads_columnText` says that the text of the column reads as this formula.
-/

namespace StreamQuery

open List Text

/-! ## What a member asks of the hub -/

/-- The hub column that an aggregate of a raw column looks for. -/
def Aggregate.hubColumn (a : Aggregate) (column : String) : String :=
  match a with
  | .sum | .average => "SUM" ++ column
  | .min => "MIN" ++ column
  | .max => "MAX" ++ column
  | .latest => "LAST" ++ column
  | .count => "CNT"

/-- An aggregate over a hub column; averages over sums divide by row counts. -/
def Aggregate.onHub (a : Aggregate) (target : String) : Formula :=
  if a = .average ∧ ['S', 'U', 'M'] <+: target.toList then
    .binary .divide (.call .sum target) (.call .sum "CNT")
  else .call a target

namespace Formula

/-- The hub column of the first call. -/
def firstColumn : Formula → String
  | .call a column => a.hubColumn column
  | .negate f => f.firstColumn
  | .binary _ left _ => left.firstColumn

/-- The aggregate of a formula that is one call, up to its sign. -/
def soleCall? : Formula → Option Aggregate
  | .call a _ => some a
  | .negate f => f.soleCall?
  | .binary _ _ _ => none

/-- The hub column that all calls of a member read. -/
def hubTarget (name : String) (f : Formula) : String :=
  if f.soleCall?.all (· == .average) then f.firstColumn else identifier name

/-- The formula with every call over one hub column. -/
def onHub (target : String) : Formula → Formula
  | .call a _ => a.onHub target
  | .negate f => .negate (f.onHub target)
  | .binary o left right => .binary o (left.onHub target) (right.onHub target)

/-- True for a formula that is a call, without a sign. -/
def isCall : Formula → Bool
  | .call _ _ => true
  | _ => false

/-- What the column of a member says. -/
def hubForm (name : String) (f : Formula) : Formula :=
  let target := f.hubTarget name
  if f.isCall || sameName target name then f.onHub target
  else .call (f.soleCall?.getD .latest) target

end Formula

/-! ## Aggregates in the catalog -/

/-- The last entry of a list under a name is the one that counts. -/
lemma NameMap.get?_ofList {α : Type*} (entries : List (String × α)) (name : String) :
    (NameMap.ofList entries).get? name =
      (entries.reverse.find? fun entry => entry.1 == name).map (·.2) := by
  suffices h : ∀ m : NameMap α,
      (entries.foldl (fun m entry => m.insert entry.1 entry.2) m).get? name =
        ((entries.reverse.find? fun entry => entry.1 == name).map (·.2)).or (m.get? name) by
    rw [NameMap.ofList, h, NameMap.get?_empty, Option.or_none]
  induction entries with
  | nil => simp
  | cons entry rest ih =>
    intro m
    rw [foldl_cons, ih, NameMap.get?_insert, reverse_cons, find?_append]
    by_cases hname : name = entry.1
    · cases rest.reverse.find? fun entry => entry.1 == name <;> simp [hname]
    · cases rest.reverse.find? fun entry => entry.1 == name <;> simp [hname, Ne.symm hname]

/-- The catalog writes the aggregates of formulas as the built-in one does. -/
structure Catalog.WritesAggregates (c : Catalog) : Prop where
  method : ∀ a : Aggregate, c.get? a.method = Catalog.builtin.get? a.method
  /-- The dialect spelling of the average is no method. -/
  average : c.get? "AVG" = none

/-- The method of an aggregate has a rule, which writes a call on one column. -/
lemma Catalog.WritesAggregates.rule {c : Catalog} (h : c.WritesAggregates) (a : Aggregate) :
    ∃ rule, c.get? a.method = some rule ∧
      ∀ column, rule.render [column] = .ok (a.function ++ "(" ++ column ++ ")") := by
  have hrule : ∃ least most special, (FunctionRule.builtinRules.reverse.find? fun entry =>
      entry.1 == a.method).map (·.2) =
        some { function := a.function, minArgs := least, maxArgs := some most, special } ∧
          least ≤ 1 ∧ 1 ≤ most := by
    cases a
    case count => exact ⟨0, 1, true, rfl, by decide⟩
    all_goals exact ⟨1, 1, false, rfl, by decide⟩
  obtain ⟨least, most, special, hfind, hleast, hmost⟩ := hrule
  refine ⟨_, (h.method a).trans ((NameMap.get?_ofList _ _).trans hfind), fun column => ?_⟩
  have hjoined : joined ", " [column] = column := rfl
  simp [FunctionRule.render, FunctionRule.accepts, hleast, hmost, hjoined]

/-! ## The rule of a member -/

lemma Aggregate.inAggregateFamily_method (a : Aggregate) : Function.inAggregateFamily a.method := by
  cases a <;> decide

lemma Aggregate.isAggregate_method (a : Aggregate) : Function.isAggregate a.method := by
  simp [Function.isAggregate, a.inAggregateFamily_method]

lemma Aggregate.isAverage_method (a : Aggregate) :
    HubPlan.isAverage a.method = (a == .average) := by
  cases a <;> decide

/-- A call reads an identifier, and its own hub column is the first candidate. -/
lemma candidates_callColumn? {a : Aggregate} {args : List Expr} {column : String}
    (h : callColumn? a args = some column) :
    (HubPlan.candidates a.method (args.findSome? Expr.selectedMember?)).head? =
        some (a.hubColumn column) ∧
      isIdentifier (a.hubColumn column) := by
  by_cases hcount : a = .count
  · subst hcount
    have hstart : HubPlan.columnStart? Aggregate.count.method = none := by decide
    have hname : sameName Aggregate.count.method "Count" := by decide
    refine ⟨by simp [HubPlan.candidates, hstart, hname, Aggregate.hubColumn], ?_⟩
    show isIdentifier "CNT"
    decide
  · rw [callColumn?, if_neg hcount] at h
    obtain ⟨m, hm, rfl⟩ := Option.map_eq_some_iff.1 h
    obtain ⟨hm, hname⟩ := Option.filter_eq_some_iff.1 hm
    simp only [Bool.and_eq_true, bne_iff_ne, ne_eq] at hname
    have hleaf := isIdentifier_identifier hname.2
    have hne : identifier m.name ≠ "" := ne_empty_of_isIdentifier hleaf
    rw [hm]
    cases a
    case count => exact absurd rfl hcount
    all_goals
      constructor
      · simp only [HubPlan.candidates, beq_iff_eq, hne, if_false]
        rfl
      · exact isIdentifier_append (by decide) hleaf

namespace Expr.Means

variable {e : Expr} {f : Formula}

lemma unwrap (h : e.Means f) : e.unwrap.Means f := by
  induction h with
  | call hname hcolumn => exact .call hname hcolumn
  | convert h ih => exact ih
  | negate h ih => exact .negate h
  | binary o hleft hright ihleft ihright => exact .binary o hleft hright

/-- Under its conversions, an expression has the shape of its meaning. -/
lemma unwrap_shape (h : e.Means f) :
    (∃ method receiver args a column, e.unwrap = .call method receiver args ∧
        method.name = Aggregate.method a ∧ f = .call a column) ∨
      (∃ operand type g, e.unwrap = .unary .negate operand type ∧ f = .negate g) ∨
      ∃ op left right o g k, e.unwrap = .binary op left right ∧ f = .binary o g k := by
  induction h with
  | call hname hcolumn => exact Or.inl ⟨_, _, _, _, _, rfl, hname, rfl⟩
  | convert h ih => exact ih
  | negate h ih => exact Or.inr (Or.inl ⟨_, _, _, rfl, rfl⟩)
  | binary o hleft hright ihleft ihright =>
    exact Or.inr (Or.inr ⟨_, _, _, _, _, _, rfl, rfl⟩)

lemma isGroupKeyPart (h : e.Means f) : e.isGroupKeyPart = false := by
  rcases h.unwrap_shape with ⟨_, _, _, _, _, he, -⟩ | ⟨_, _, _, he, -⟩ | ⟨_, _, _, _, _, _, he, -⟩
    <;> simp [Expr.isGroupKeyPart, Expr.isGroupKey, he]

/-- A formula is an aggregate. -/
lemma aggregates (h : e.Means f) : e.aggregates := by
  induction h with
  | call hname hcolumn => simp [Expr.aggregates, hname, Aggregate.isAggregate_method]
  | convert h ih => simpa [Expr.aggregates] using ih
  | negate h ih => simpa [Expr.aggregates] using ih
  | binary o hleft hright ihleft ihright => simp [Expr.aggregates, ihleft]

lemma firstAggregate (h : e.Means f) :
    ∃ first, e.firstAggregate? = some first ∧
      (HubPlan.candidates first.1 first.2).head? = some f.firstColumn := by
  induction h with
  | @call method receiver args a column hname hcolumn =>
    refine ⟨(method.name, args.findSome? Expr.selectedMember?), ?_, ?_⟩
    · simp [Expr.firstAggregate?, Expr.nodes, hname, Aggregate.isAggregate_method]
    · rw [hname]
      exact (candidates_callColumn? hcolumn).1
  | convert h ih => exact ih
  | negate h ih => exact ih
  | @binary o left right f g hleft hright ihleft ihright =>
    obtain ⟨first, hfirst, hcolumn⟩ := ihleft
    refine ⟨first, ?_, hcolumn⟩
    unfold Expr.firstAggregate? at hfirst ⊢
    simp only [Expr.nodes, findSome?_cons, findSome?_append, hfirst, Option.some_or]

/-- Without known columns, a formula asks for its first one. -/
lemma hubColumn? (h : e.Means f) : HubPlan.hubColumn? e none = some f.firstColumn := by
  obtain ⟨first, hfirst, hcolumn⟩ := h.firstAggregate
  unfold HubPlan.hubColumn?
  rw [hfirst]
  exact hcolumn

lemma isIdentifier_firstColumn (h : e.Means f) : isIdentifier f.firstColumn := by
  induction h with
  | call hname hcolumn => exact (candidates_callColumn? hcolumn).2
  | convert h ih => exact ih
  | negate h ih => exact ih
  | binary o hleft hright ihleft ihright => exact ihleft

lemma hasAggregate (h : e.Means f) : e.hasAggregate := by
  obtain ⟨first, hfirst, -⟩ := h.firstAggregate
  obtain ⟨node, hnode, hcall⟩ := exists_of_findSome?_eq_some hfirst
  unfold Expr.hasAggregate Expr.anyNode
  refine any_eq_true.2 ⟨node, hnode, ?_⟩
  cases node with
  | call method receiver args =>
    by_contra hnot
    simp [hnot] at hcall
  | _ => exact nomatch hcall

/-- A formula is an aggregate if it is one call, and else is computed. -/
lemma read (h : e.Means f) (label : String) :
    (Outline.read label e).role = (if f.soleCall?.isSome then .aggregate else .computed) ∧
      (Outline.read label e).aggregate = f.soleCall?.map Aggregate.method := by
  induction h with
  | call hname hcolumn =>
    simp [Outline.read, hname, Aggregate.isAggregate_method, Formula.soleCall?]
  | convert h ih => exact ih
  | negate h ih => exact ih
  | binary o hleft hright ihleft ihright => exact ⟨rfl, rfl⟩

/-- A formula asks for its hub column, with its method if it is one call. -/
lemma memberRule? (h : e.Means f) {name : String} (hblank : allBlank name = false)
    (hraw : sameName name HubPlan.windowStartRaw = false) :
    HubPlan.memberRule? none (Outline.memberOf name e) =
      some ⟨f.hubTarget name, some ((f.soleCall?.map Aggregate.method).getD "AVG"), false⟩ := by
  obtain ⟨hrole, haggregate⟩ := h.unwrap.read name
  simp only [HubPlan.memberRule?, Outline.memberOf, hblank, hraw, hrole, haggregate,
    h.hasAggregate, h.hubColumn?, Formula.hubTarget]
  cases hsole : f.soleCall? with
  | none => simp
  | some a => by_cases ha : a = .average <;> simp [Aggregate.isAverage_method, ha]

/-- A formula is not left out, unless it is a raw window start. -/
lemma dropsMember (h : e.Means f) {name : String}
    (hraw : sameName name HubPlan.windowStartRaw = false) :
    HubPlan.dropsMember (Outline.memberOf name e) = false := by
  simp [HubPlan.dropsMember, Outline.memberOf, hraw, h.hasAggregate]

lemma isIdentifier_hubTarget (h : e.Means f) {name : String} (hblank : allBlank name = false) :
    isIdentifier (f.hubTarget name) := by
  have hname : name ≠ "" := by
    rintro rfl
    exact absurd hblank (by decide)
  unfold Formula.hubTarget
  split
  · exact h.isIdentifier_firstColumn
  · exact isIdentifier_identifier hname

end Expr.Means

/-! ## The text of a column -/

/-- A hub column behind the alias of the hub, if it has one. -/
def HubInput.column (hub : HubInput) (target : String) : String :=
  if hub.aliasName == "" then target else hub.aliasName ++ "." ++ target

/-- Behind its alias, a hub column has the name that it has by itself. -/
lemma HubInput.column_parts {hub : HubInput} {target : String} (halias : ')' ∉ hub.aliasName.toList)
    (htarget : isIdentifier target) :
    ')' ∉ (hub.column target).toList ∧ Formula.columnName (hub.column target).toList = target ∧
      afterLast ['.'] (hub.column target).toList = target.toList := by
  obtain ⟨hpoint, hclose⟩ := not_mem_of_isIdentifier htarget
  have hname := Formula.columnName_qualified hpoint hub.aliasName.toList
  have hlast := afterLast_qualified hpoint hub.aliasName.toList
  rw [String.ofList_toList] at hname
  unfold HubInput.column
  split
  · exact ⟨hclose, hname.1, hlast.1⟩
  · rw [String.toList_append, String.toList_append, append_assoc]
    refine ⟨?_, hname.2, hlast.2⟩
    simp [halias, hclose]

section

variable {c : ColumnContext} {hub : HubInput} {name target : String}

/-- A function with a column in brackets reads as the aggregate of that column. -/
lemma reads_callText (a : Aggregate) {column : String} (hclose : ')' ∉ column.toList)
    (hname : Formula.columnName column.toList = target) :
    Formula.Reads (a.function ++ "(" ++ column ++ ")").toList (.call a target) := by
  have hreads := Formula.reads_call a hclose
  rw [hname] at hreads
  simpa [String.toList_append] using hreads

/-- The hub column of a name with a rule is the target of the rule. -/
lemma hubTarget?_of_rule (hhub : c.hub = some hub) {rule : HubRule}
    (hrule : c.rule? (some name) = some rule) (htarget : isIdentifier rule.target) :
    c.hubTarget? (some name) = some (hub.column rule.target) := by
  unfold ColumnContext.hubTarget?
  rw [hhub, hrule]
  simp [nonBlank_of_isIdentifier htarget, (not_mem_of_isIdentifier htarget).1, HubInput.column]

/-- An aggregate call is written as the aggregate over the target. -/
lemma reads_hubAggregate {a : Aggregate} {rule : FunctionRule}
    (hrule : ∀ column, rule.render [column] = .ok (a.function ++ "(" ++ column ++ ")"))
    (halias : ')' ∉ hub.aliasName.toList) (htarget : isIdentifier target) :
    ∃ text, ColumnContext.hubAggregate rule a.method (hub.column target) = .ok text ∧
      Formula.Reads text.toList (a.onHub target) := by
  obtain ⟨hclose, hname, hlast⟩ := HubInput.column_parts halias htarget
  have hupper : target.toList.map Char.toUpper = target.toList :=
    (map_congr_left fun c hc =>
      (isCapital_apart (isCapital_of_isIdentifier htarget c hc)).2.2.2).trans
      (map_id _)
  have hcall : ∀ b : Aggregate, Formula.Reads
      (b.function ++ "(" ++ hub.column target ++ ")").toList (.call b target) :=
    fun b => reads_callText b hclose hname
  have haverage : (sameName a.method "Average" || sameName a.method "Avg") =
      (a == .average) := a.isAverage_method
  have hcount : Formula.Reads "SUM(CNT)".toList (.call .sum "CNT") :=
    @Formula.reads_call .sum ['C', 'N', 'T'] (by decide)
  unfold ColumnContext.hubAggregate Aggregate.onHub
  simp only [haverage, hlast, hupper, isPrefixOf_iff_prefix]
  by_cases ha : a = .average
  · subst ha
    by_cases hsum : ['S', 'U', 'M'] <+: target.toList
    · refine ⟨"(SUM(" ++ hub.column target ++ ") / SUM(CNT))", if_pos hsum, ?_⟩
      rw [if_pos ⟨rfl, hsum⟩]
      simpa [Aggregate.function, Arithmetic.sign] using
        Formula.reads_binary .divide (hcall .sum) hcount
    · refine ⟨"AVG(" ++ hub.column target ++ ")", if_neg hsum, ?_⟩
      rw [if_neg fun h => hsum h.2]
      exact hcall .average
  · refine ⟨a.function ++ "(" ++ hub.column target ++ ")", by simp [ha, hrule], ?_⟩
    rw [if_neg fun h => ha h.1]
    exact hcall a

/-- A formula is written with every call over the target. -/
lemma reads_styled (hcatalog : c.dialect.catalog.WritesAggregates)
    (halias : ')' ∉ hub.aliasName.toList) (htarget : isIdentifier target)
    (hcolumn : c.hubTarget? (some name) = some (hub.column target)) {e : Expr} {f : Formula}
    (h : e.Means f) :
    ∃ text, e.styled (c.style (some name)) = .ok text ∧
      Formula.Reads text.toList (f.onHub target) := by
  induction h with
  | @call method receiver args a column hname _ =>
    obtain ⟨rule, hget, hrender⟩ := hcatalog.rule a
    obtain ⟨text, htext, hreads⟩ := reads_hubAggregate hrender halias htarget
    refine ⟨text, ?_, hreads⟩
    show c.callText (some name) method receiver args = .ok text
    unfold ColumnContext.callText
    simp only [hname, hget, hcolumn, a.inAggregateFamily_method, if_true, htext]
  | convert h ih =>
    obtain ⟨text, htext, hreads⟩ := ih
    exact ⟨text, by rw [Expr.styled, htext]; rfl, hreads⟩
  | negate h ih =>
    obtain ⟨text, htext, hreads⟩ := ih
    refine ⟨"-" ++ text, by rw [Expr.styled, htext]; rfl, ?_⟩
    simpa [Formula.onHub] using Formula.reads_negate hreads
  | binary o hleft hright ihleft ihright =>
    obtain ⟨left, hleft, hreadsLeft⟩ := ihleft
    obtain ⟨right, hright, hreadsRight⟩ := ihright
    refine ⟨"(" ++ (left ++ " " ++ String.singleton o.sign ++ " " ++ right) ++ ")", ?_, ?_⟩
    · rw [Expr.styled, hleft, hright]
      cases o <;> rfl
    · simpa [Formula.onHub] using Formula.reads_binary o hreadsLeft hreadsRight

/-- A hub column under the aggregate of a rule, or else its latest value. -/
lemma reads_aggregated (hcatalog : c.dialect.catalog.WritesAggregates)
    (htarget : isIdentifier target) (a : Option Aggregate) :
    Formula.Reads (c.aggregated (some ((a.map Aggregate.method).getD "AVG")) target).toList
      (.call (a.getD .latest) target) := by
  obtain ⟨hpoint, hclose⟩ := not_mem_of_isIdentifier htarget
  have hname : Formula.columnName target.toList = target := by
    rw [(Formula.columnName_qualified hpoint []).1, String.ofList_toList]
  have hcall : ∀ b : Aggregate, Formula.Reads
      (b.function ++ "(" ++ target ++ ")").toList (.call b target) :=
    fun b => reads_callText b hclose hname
  unfold ColumnContext.aggregated
  cases a with
  | none =>
    simp only [Option.map_none, Option.getD_none, Option.bind_some, hcatalog.average]
    exact hcall .latest
  | some b =>
    obtain ⟨rule, hget, hrender⟩ := hcatalog.rule b
    simp only [Option.map_some, Option.getD_some, Option.bind_some, hget, hrender]
    exact hcall b

/-- An aggregate call stays as it is written. -/
lemma ruled_call (hcatalog : c.dialect.catalog.WritesAggregates) {e : Expr} {method : Method}
    {receiver : Option Expr} {args : List Expr} {a : Aggregate}
    (he : e.unwrap = .call method receiver args) (hname : method.name = a.method) (text : String) :
    c.ruled name e text = text := by
  obtain ⟨rule, hget, -⟩ := hcatalog.rule a
  unfold ColumnContext.ruled
  simp [he, ColumnContext.isMappedAggregate, hname, hget, a.inAggregateFamily_method]

/-- A formula other than a call stays if its rule names its own column, and else is replaced. -/
lemma ruled_operation {e : Expr} {f : Formula} (h : e.Means f) (hcall : f.isCall = false)
    {method : String} (hmethod : nonBlank method = some method) (htarget : isIdentifier target)
    (hrule : c.rule? (some name) = some ⟨target, some method, false⟩) (text : String) :
    c.ruled name e text =
      if sameName target name then text else c.aggregated (some method) target := by
  have hkey := h.unwrap.isGroupKeyPart
  have haggregates := h.unwrap.aggregates
  unfold ColumnContext.ruled
  rcases h.unwrap_shape with ⟨_, _, _, _, _, -, -, rfl⟩ | ⟨_, _, _, he, -⟩ |
    ⟨_, _, _, _, _, _, he, -⟩
  · exact nomatch hcall
  all_goals
    rw [he] at hkey haggregates
    simp [he, hkey, haggregates, hrule, nonBlank_of_isIdentifier htarget, hmethod]

/-- The column of a formula is written, and reads as what the hub gives for it. -/
theorem reads_columnText (hcatalog : c.dialect.catalog.WritesAggregates) (hhub : c.hub = some hub)
    (halias : ')' ∉ hub.aliasName.toList) {e : Expr} {f : Formula} (h : e.Means f)
    (hblank : allBlank name = false)
    (hrule : c.rule? (some name) =
      some ⟨f.hubTarget name, some ((f.soleCall?.map Aggregate.method).getD "AVG"), false⟩) :
    ∃ text, c.columnText name e = .ok text ∧ Formula.Reads text.toList (f.hubForm name) := by
  have htarget := h.isIdentifier_hubTarget hblank
  obtain ⟨text, htext, hreads⟩ :=
    reads_styled hcatalog halias htarget (hubTarget?_of_rule hhub hrule htarget) h
  refine ⟨c.ruled name e text, by rw [ColumnContext.columnText, htext]; rfl, ?_⟩
  -- The rule does not touch a call; anything else it keeps or replaces.
  unfold Formula.hubForm
  cases hcall : f.isCall with
  | true =>
    rcases h.unwrap_shape with ⟨_, _, _, _, _, he, hname, -⟩ | ⟨_, _, _, -, rfl⟩ |
      ⟨_, _, _, _, _, _, -, rfl⟩
    · rw [ruled_call hcatalog he hname]
      simpa using hreads
    · exact nomatch hcall
    · exact nomatch hcall
  | false =>
    have hmethod : ∀ a : Option Aggregate, nonBlank ((a.map Aggregate.method).getD "AVG") =
        some ((a.map Aggregate.method).getD "AVG") := by
      rintro (_ | a)
      · decide
      · cases a <;> decide
    rw [ruled_operation h hcall (hmethod _) htarget hrule]
    by_cases hsame : sameName (f.hubTarget name) name
    · simpa [hsame] using hreads
    · simpa [hsame] using reads_aggregated hcatalog htarget f.soleCall?

end

/-! ## The columns of a record -/

section

variable {c : ColumnContext} {l l' : ColumnList}

/-- The names of the grouping keys are added at most, and no column is lost. -/
lemma addKeys_list (c : ColumnContext) (l : ColumnList) :
    (∀ item ∈ l.items, item ∈ (c.addKeys l).items) ∧
      ∀ u ∈ (c.addKeys l).used, u ∈ l.used ∨ ∃ key ∈ c.keyColumns, key.2 = u := by
  unfold ColumnContext.addKeys
  induction c.keyColumns generalizing l with
  | nil => exact ⟨fun _ h => h, fun _ h => Or.inl h⟩
  | cons key rest ih =>
    obtain ⟨hitems, hused⟩ := ih (if c.excludes key.2 || l.used.any (fun u => sameName u key.2)
      then l else l.add key.1 key.2)
    refine ⟨fun item hitem => hitems item ?_, fun u hu => ?_⟩
    · split
      · exact hitem
      · exact mem_append_left _ hitem
    · rcases hused u hu with hu | ⟨k, hk, rfl⟩
      · split at hu
        · exact Or.inl hu
        · rcases mem_append.1 hu with hu | hu
          · exact Or.inl hu
          · exact Or.inr ⟨key, mem_cons_self, (mem_singleton.1 hu).symm⟩
      · exact Or.inr ⟨k, mem_cons_of_mem _ hk, rfl⟩

/-- A free name gets its column, unless it is left out. -/
lemma addColumn_list {name column : String} (hfree : name ∉ l.used) :
    c.addColumn l name column =
      if c.excludes name then l else l.add (c.typed name column) name := by
  have hlabel : freeName l.used name = name := by simp [freeName, hfree]
  unfold ColumnContext.addColumn
  simp [hlabel]

/-- If the names of the members differ from each other and from those of the keys, every member that
is neither the grouping key nor left out has its column. -/
theorem mem_items_of_addMembers {grouped : Bool} {seen : ColumnContext.Seen}
    {members : List (String × Expr)} (h : c.addMembers grouped seen l members = .ok l')
    (hdistinct : members.Pairwise fun a b => a.1 ≠ b.1)
    (hkeys : ∀ key ∈ c.keyColumns, ∀ m ∈ members, m.1 ≠ key.2)
    (hfree : ∀ m ∈ members, m.1 ∉ l.used) :
    (∀ item ∈ l.items, item ∈ l'.items) ∧
      ∀ m ∈ members, m.2.isGroupKey = false → c.excludes m.1 = false →
        ∃ text, c.columnText m.1 m.2 = .ok text ∧ (c.typed m.1 text, m.1) ∈ l'.items := by
  -- The names of the members still to come stay free, so no column gets a number.
  induction members generalizing seen l with
  | nil =>
    cases h
    exact ⟨fun _ h => h, fun m hm => nomatch hm⟩
  | cons first rest ih =>
    obtain ⟨hfirst, hrest⟩ := pairwise_cons.1 hdistinct
    have hkeysRest : ∀ key ∈ c.keyColumns, ∀ m ∈ rest, m.1 ≠ key.2 := fun key hkey m hm =>
      hkeys key hkey m (mem_cons_of_mem _ hm)
    have hfreeRest : ∀ m ∈ rest, m.1 ∉ l.used := (forall_mem_cons.1 hfree).2
    obtain ⟨hkey, h⟩ | ⟨-, column, seen, hcolumn, h⟩ := ColumnContext.addMembers_cons h
    · obtain ⟨hitems, hused⟩ := addKeys_list c l
      obtain ⟨hkept, hmembers⟩ := ih h hrest hkeysRest fun m hm hu => by
        rcases hused _ hu with hu | ⟨key, hk, hname⟩
        · exact hfreeRest m hm hu
        · exact hkeysRest key hk m hm hname.symm
      refine ⟨fun item hitem => hkept item (hitems item hitem), fun m hm hnot hexcluded => ?_⟩
      rcases mem_cons.1 hm with rfl | hm
      · rw [hkey] at hnot
        exact nomatch hnot
      · exact hmembers m hm hnot hexcluded
    · have hadd := @addColumn_list c l first.1 column (hfree first mem_cons_self)
      have hused : ∀ u ∈ (c.addColumn l first.1 column).used, u ∈ l.used ∨ u = first.1 := by
        rw [hadd]
        split
        · exact fun u hu => Or.inl hu
        · exact fun u hu => (mem_append.1 hu).imp_right mem_singleton.1
      have hitems : ∀ item ∈ l.items, item ∈ (c.addColumn l first.1 column).items := by
        rw [hadd]
        split
        · exact fun item hitem => hitem
        · exact fun item hitem => mem_append_left _ hitem
      obtain ⟨hkept, hmembers⟩ := ih h hrest hkeysRest fun m hm hu => by
        rcases hused _ hu with hu | hname
        · exact hfreeRest m hm hu
        · exact hfirst m hm hname.symm
      refine ⟨fun item hitem => hkept item (hitems item hitem), fun m hm hnot hexcluded => ?_⟩
      rcases mem_cons.1 hm with rfl | hm
      · refine ⟨column, hcolumn, hkept _ ?_⟩
        rw [hadd, hexcluded]
        exact mem_append_right _ mem_cons_self
      · exact hmembers m hm hnot hexcluded

end

end StreamQuery
