import StreamQuery.Proofs.PartitionEffect
import StreamQuery.Proofs.SplitTexts

/-!
# Retention

A statement has the retention of its query if the query does not aggregate or the statement is over
tumbling windows (`Compiler.Composes.mem_parts_retention_iff`).  Whether it creates a table is
decided apart from that: a partition list that is folded into the grouping keys makes a table of a
query that does not aggregate (`Compiler.Composes.kind_eq_table_iff`).  There retention does not
belong and is written all the same (`retention_kept_iff`).
-/

namespace StreamQuery

open Text List

/-! ## The parts of a WITH clause -/

namespace SinkProperties

/-- The name of a property. -/
def partName (part : String) : List Char :=
  part.toList.takeWhile (· != '=')

variable {name : String}

lemma partName_append (hname : '=' ∉ name.toList) (value : List Char) :
    (name.toList ++ '=' :: value).takeWhile (· != '=') = name.toList := by
  rw [takeWhile_append_of_pos]
  · simp
  · intro c hc
    refine bne_iff_ne.2 ?_
    rintro rfl
    exact hname hc

lemma partName_quotedPart (hname : '=' ∉ name.toList) (value : String) :
    partName (quotedPart name value) = name.toList := by
  have htext : (quotedPart name value).toList =
      name.toList ++ '=' :: ('\'' :: value.toList ++ ['\'']) := by
    unfold quotedPart
    simp
  rw [partName, htext, partName_append hname]

lemma partName_numberPart (hname : '=' ∉ name.toList) (value : Nat) :
    partName (numberPart name value) = name.toList := by
  have htext : (numberPart name value).toList = name.toList ++ '=' :: (toString value).toList := by
    unfold numberPart
    simp
  rw [partName, htext, partName_append hname]

lemma numberPart_inj {m n : Nat} (h : numberPart name m = numberPart name n) : m = n := by
  unfold numberPart at h
  have hdigits : Nat.toDigits 10 m = Nat.toDigits 10 n := by
    simpa using congrArg String.toList h
  rw [← Nat.ofDigitChars_ten_toDigits (n := m), hdigits, Nat.ofDigitChars_ten_toDigits]

/-- The properties have a retention. -/
def HasRetention (p : SinkProperties) : Prop :=
  ∃ n, numberPart "RETENTION_MS" n ∈ p.parts

/-- Only the retention is written as a retention. -/
lemma mem_parts_retention_iff {p : SinkProperties} {n : Nat} :
    numberPart "RETENTION_MS" n ∈ p.parts ↔ p.retentionMs = some n := by
  have hname : partName (numberPart "RETENTION_MS" n) = "RETENTION_MS".toList :=
    partName_numberPart (by decide) n
  have hquoted : ∀ name value : String, '=' ∉ name.toList → name ≠ "RETENTION_MS" →
      numberPart "RETENTION_MS" n ≠ quotedPart name value := by
    intro name value hplain hne heq
    rw [heq, partName_quotedPart hplain] at hname
    exact hne (String.toList_inj.1 hname)
  have hnumber : ∀ (name : String) (value : Nat), '=' ∉ name.toList → name ≠ "RETENTION_MS" →
      numberPart "RETENTION_MS" n ≠ numberPart name value := by
    intro name value hplain hne heq
    rw [heq, partName_numberPart hplain] at hname
    exact hne (String.toList_inj.1 hname)
  constructor
  · intro h
    unfold parts at h
    rcases mem_append.1 h with h | h
    · -- every other property has another name
      exfalso
      simp only [mem_append, mem_map, mem_singleton, mem_ite_nil_right] at h
      rcases h with (((((((h | ⟨v, -, h⟩) | ⟨-, h⟩) | h) | ⟨-, v, -, h⟩) | ⟨v, -, h⟩) |
        ⟨v, -, h⟩) | ⟨v, -, h⟩) | ⟨v, -, h⟩
      · exact hquoted _ _ (by decide) (by decide) h
      · exact hquoted _ _ (by decide) (by decide) h.symm
      · exact hquoted _ _ (by decide) (by decide) h
      · exact hquoted _ _ (by decide) (by decide) h
      · exact hquoted _ _ (by decide) (by decide) h.symm
      · exact hquoted _ _ (by decide) (by decide) h.symm
      · exact hquoted _ _ (by decide) (by decide) h.symm
      · exact hnumber _ _ (by decide) (by decide) h.symm
      · exact hnumber _ _ (by decide) (by decide) h.symm
    · obtain ⟨m, hm, hpart⟩ := mem_map.1 h
      rw [← numberPart_inj hpart]
      exact Option.mem_toList.1 hm
  · intro h
    unfold parts
    refine mem_append_right _ (mem_map.2 ⟨n, ?_, rfl⟩)
    exact Option.mem_toList.2 h

end SinkProperties

/-! ## Partition lists with columns in them -/

namespace Partition

/-- A column with an identifier is more than white space and separators. -/
lemma exists_mem_text {clause column : String} (hcolumn : column ∈ columns clause)
    (hname : (Item.ofColumn column).name ≠ "") :
    ∃ c ∈ (Item.ofColumn column).text.toList, IsColumnChar c := by
  have hbare : unqualified column.toList ≠ [] := by
    intro hnil
    refine hname ?_
    change normalized (unqualified column.toList) = ""
    rw [hnil]
    decide
  obtain ⟨c, hc, hblank⟩ := exists_of_trim_ne_nil hbare
  have hmem : c ∈ column.toList :=
    mem_of_mem_trim (mem_of_mem_afterLast (mem_of_mem_afterLast (mem_of_mem_trim hc)))
  have hcomma : c ≠ ',' := by
    rintro rfl
    exact comma_not_mem_of_mem_columns hcolumn hmem
  refine ⟨c, ?_, hblank, hcomma⟩
  unfold Item.text
  split
  · exact (String.toList_ofList (l := unqualified column.toList)).symm ▸ hc
  · exact hmem

lemma mem_of_mem_firsts {seen : List String} {l : List Item} {i : Item} (h : i ∈ firsts seen l) :
    i ∈ l := by
  induction l generalizing seen with
  | nil => exact h
  | cons first rest ih =>
    rw [firsts] at h
    split at h
    · exact mem_cons_of_mem _ (ih h)
    · rcases mem_cons.1 h with rfl | h
      · exact mem_cons_self
      · exact mem_cons_of_mem _ (ih h)

lemma firsts_eq_nil_iff {l : List Item} : firsts [] l = [] ↔ l = [] := by
  cases l with
  | nil => exact ⟨fun h => h, fun h => h⟩
  | cons first rest =>
    rw [firsts, if_neg (by simp)]
    exact iff_of_false (cons_ne_nil _ _) (cons_ne_nil _ _)

lemma items_eq_nil_iff {clause : String} : items clause = [] ↔ identifiers clause = [] := by
  rw [items, firsts_eq_nil_iff, ← length_eq_zero_iff, length_mergeSort,
    length_eq_zero_iff, identifiers, filter_map, filter_map, map_eq_nil_iff,
    map_eq_nil_iff]
  rfl

lemma mergeInto_none_iff {clause : String} :
    (mergeInto none (dedup clause)).2 ↔ identifiers clause ≠ [] := by
  rw [ne_eq, ← items_eq_nil_iff]
  constructor
  · intro hmerged hnone
    rw [dedup, hnone] at hmerged
    exact absurd hmerged (by decide)
  · intro hsome
    obtain ⟨first, rest, hitems⟩ := exists_cons_of_ne_nil hsome
    have hfirst : first ∈ items clause := hitems ▸ mem_cons_self
    obtain ⟨hmem, hname⟩ := mem_filter.1
      (mem_mergeSort.1 (mem_of_mem_firsts hfirst))
    obtain ⟨column, hcolumn, rfl⟩ := mem_map.1 hmem
    obtain ⟨c, hc, hchar⟩ := exists_mem_text hcolumn (bne_iff_ne.1 hname)
    have hdedup : c ∈ (dedup clause).toList := by
      rw [dedup, hitems, map_cons]
      exact mem_joined hc
    obtain ⟨column', columns', hcolumns⟩ := exists_cons_of_ne_nil (columns_ne_nil hchar hdedup)
    unfold mergeInto
    rw [hcolumns]

end Partition

/-! ## Statements -/

/-- The rows of a statement belong to tumbling windows. -/
def Step.tumbles (q : Query) : Step → Bool
  | .create _ => !q.windows.isEmpty && q.hopping.isNone
  | .windowed target => target.hop.isNone
  | .hopping _ => false
  | .all _ => true
  | .insert _ => false

/-- A partition list with a column has become the grouping keys. -/
def Composition.Rekeys (d : Composition) (q : Query) : Prop :=
  ∃ list, d.plan.partition? q = some list ∧
    Partition.identifiers (d.raw.edit q d.plan.target.options.keyPath list) ≠ []

/-- A table is made exactly if the query aggregates or a list became its keys. -/
lemma Composition.kind_eq_table_iff (d : Composition) {q : Query}
    (hkeys : d.raw.groupBy.isSome = q.groupBy.isSome) :
    (d.plan.statement q d.raw).kind = .table ↔ q.isAggregate ∨ d.Rekeys q := by
  have hmerged :
      (d.raw.grouping q d.plan.target.options.keyPath (d.plan.partition? q)).2 ↔
        d.Rekeys q := by
    unfold RawClauses.grouping Rekeys
    cases hpartition : d.plan.partition? q with
    | none => simp
    | some list =>
      have hkeep := CreatePlan.not_keepsKey_of_partition? hpartition
      have hgroup : d.raw.groupBy = none := by
        rw [← Option.not_isSome_iff_eq_none, hkeys]
        exact fun hsome => hkeep (.inr (.inl hsome))
      simp only [hgroup, Option.map_none, Option.map_some, Partition.mergeInto_none_iff,
        Option.some.injEq, exists_eq_left']
  rw [CreatePlan.statement_eq_keyed]
  unfold CreatePlan.keyed
  dsimp only
  rw [← hmerged]
  cases q.isAggregate <;>
    cases (d.raw.grouping q d.plan.target.options.keyPath (d.plan.partition? q)).2 <;> decide

namespace Compiler.Composes

variable {c : Compiler} {scope : Scope} {q : Query} {step : Step} {memo : Memo} {d : Composition}

lemma isTumbling_eq (h : c.Composes scope q step memo d) :
    d.plan.isTumbling q = step.tumbles q := by
  induction h with
  | create target memo raw h => rfl
  | windowed target memo raw h =>
    change (target.plan q _).isTumbling q = target.hop.isNone
    have hshape : (target.plan q (c.windowedProjection q target memo).1).shape =
        if target.hop.isSome then .hopping else .tumbling := rfl
    unfold CreatePlan.isTumbling
    rw [hshape]
    cases target.hop <;> rfl
  | hopping target memo window raw hwindow h => rfl
  | all nameFor memo earlier later timeframe d hwindows h ih => exact ih

lemma retentionMs_eq (h : c.Composes scope q step memo d) :
    d.plan.sink.retentionMs = q.extras.retentionMs? := by
  induction h with
  | all nameFor memo earlier later timeframe d hwindows h ih => exact ih
  | _ => rfl

lemma groupBy_isSome_eq (h : c.Composes scope q step memo d) :
    d.raw.groupBy.isSome = q.groupBy.isSome := by
  induction h with
  | all nameFor memo earlier later timeframe d hwindows h ih => exact ih
  | _ => exact groupBy_of_rawClauses (by assumption)

lemma create_of_rekeys (h : c.Composes scope q step memo d) (hrekeys : d.Rekeys q) :
    (∃ target, step = .create target) ∧ step.tumbles q = false := by
  obtain ⟨list, hlist, -⟩ := hrekeys
  have hkeep := CreatePlan.not_keepsKey_of_partition? hlist
  induction h with
  | create target memo raw h =>
    refine ⟨⟨target, rfl⟩, ?_⟩
    have hwindows : q.windows = [] := by
      by_contra hne
      exact hkeep (.inr (.inr (.inl hne)))
    unfold Step.tumbles
    rw [hwindows]
    rfl
  | windowed target memo raw h => cases hlist
  | hopping target memo window raw hwindow h =>
    refine absurd ?_ hkeep
    exact .inr (.inr (.inr (.inl (by rw [hwindow]; rfl))))
  | all nameFor memo earlier later timeframe d hwindows h ih =>
    obtain ⟨⟨target, htarget⟩, -⟩ := ih hlist
    cases htarget

/-- A statement has the retention of the query exactly if the query does not aggregate or the
statement is over tumbling windows. -/
lemma mem_parts_retention_iff (h : c.Composes scope q step memo d) (n : Nat) :
    SinkProperties.numberPart "RETENTION_MS" n ∈ (d.plan.statement q d.raw).sink.parts ↔
      q.extras.retentionMs? = some n ∧ (q.isAggregate = false ∨ step.tumbles q) := by
  have hpositive : q.extras.retentionMs?.filter (0 < ·) = q.extras.retentionMs? := by
    unfold Extras.retentionMs? Extras.positive?
    rw [Option.filter_filter]
    simp
  have hretention : (d.plan.statement q d.raw).sink.retentionMs =
      (if !q.isAggregate || step.tumbles q then q.extras.retentionMs? else none).filter
        (0 < ·) := by
    rw [← h.isTumbling_eq, ← h.retentionMs_eq]
    rfl
  rw [SinkProperties.mem_parts_retention_iff, hretention]
  cases q.isAggregate with
  | false => simp [hpositive]
  | true =>
    cases step.tumbles q with
    | false => simp
    | true => simp [hpositive]

end Compiler.Composes

/-- Every text that a step returns is a statement with the retention of the query exactly if the
query does not aggregate or the statement is over tumbling windows. It creates a stream exactly if
the query does not aggregate and no partition list has become its grouping keys. So retention is
kept to streams and to tables over tumbling windows, unless a query with a retention that does not
aggregate is created with such a list. -/
theorem retention_kept_iff (c : Compiler) (scope : Scope) (q : Query) (step : Step) (memo : Memo)
    (output : Output) (hstep : step.creates = true)
    (hrun : (c.run scope q step memo).1 = .ok output) (sql : String) (hsql : sql ∈ output.texts) :
    ∃ d, c.Composes scope q step memo d ∧ sql.toList = d.text q ∧
      (∀ n, SinkProperties.numberPart "RETENTION_MS" n ∈ (d.plan.statement q d.raw).sink.parts ↔
        q.extras.retentionMs? = some n ∧ (q.isAggregate = false ∨ step.tumbles q = true)) ∧
      ((d.plan.statement q d.raw).kind = .stream ↔ q.isAggregate = false ∧ ¬ d.Rekeys q) ∧
      (((d.plan.statement q d.raw).sink.HasRetention →
          (d.plan.statement q d.raw).kind = .stream ∨ step.tumbles q = true) ↔
        ¬ (q.extras.retentionMs?.isSome = true ∧ q.isAggregate = false ∧ d.Rekeys q)) ∧
      (d.Rekeys q → ∃ target, step = .create target) := by
  obtain ⟨d, hd, htext⟩ := c.composes_of_run scope q hstep hrun hsql
  have hkind : (d.plan.statement q d.raw).kind = .stream ↔
      q.isAggregate = false ∧ ¬ d.Rekeys q := by
    have htable := d.kind_eq_table_iff hd.groupBy_isSome_eq
    have hstream : (d.plan.statement q d.raw).kind = .stream ↔
        ¬ (d.plan.statement q d.raw).kind = .table := by
      cases (d.plan.statement q d.raw).kind <;> decide
    rw [hstream, htable, not_or, Bool.not_eq_true]
  refine ⟨d, hd, htext, hd.mem_parts_retention_iff, hkind, ?_, fun h => (hd.create_of_rekeys h).1⟩
  have hhas : (d.plan.statement q d.raw).sink.HasRetention ↔
      q.extras.retentionMs?.isSome = true ∧ (q.isAggregate = false ∨ step.tumbles q = true) := by
    unfold SinkProperties.HasRetention
    simp only [hd.mem_parts_retention_iff, exists_and_right, Option.isSome_iff_exists]
  rw [hhas, hkind]
  constructor
  · rintro hkept ⟨hsome, hplain, hrekeys⟩
    rcases hkept ⟨hsome, .inl hplain⟩ with ⟨-, hnot⟩ | htumbles
    · exact hnot hrekeys
    · rw [(hd.create_of_rekeys hrekeys).2] at htumbles
      cases htumbles
  · rintro hnot ⟨hsome, hplain | htumbles⟩
    · exact .inl ⟨hplain, fun hrekeys => hnot ⟨hsome, hplain, hrekeys⟩⟩
    · exact .inr htumbles

/-- A query for all rows of a stream, which are to be kept for a day. -/
def keptRows : Query :=
  Query.Draft.build
    { sources := [{ typeName := "T" }]
      extras := Extras.ofFields [(Extras.retentionKey, .num (.int 86400000))] } 0

/-- The target of a statement that is partitioned by `A`. -/
def rekeyedTarget : CreateTarget :=
  { name := "c", partitionBy := some "A" }

/-- The statement of that query for that target. -/
def rekeyedText : String :=
  "CREATE TABLE IF NOT EXISTS c WITH (KAFKA_TOPIC='c', VALUE_FORMAT='AVRO', " ++
    "RETENTION_MS=86400000) AS\nSELECT *\nFROM T\nGROUP BY A\nEMIT CHANGES;"

/-- The rows are kept for a day in a table that has no windows. -/
theorem retention_kept_rekeyed :
    (({} : Compiler).run ⟨0⟩ keptRows (.create rekeyedTarget) (Memo.start none)).1 =
      .ok (.one rekeyedText) ∧
    ∃ d,
      ({} : Compiler).Composes ⟨0⟩ keptRows (.create rekeyedTarget) (Memo.start none) d ∧
      rekeyedText.toList = d.text keptRows ∧ d.Rekeys keptRows ∧
      SinkProperties.numberPart "RETENTION_MS" 86400000 ∈
        (d.plan.statement keptRows d.raw).sink.parts ∧
      (d.plan.statement keptRows d.raw).kind ≠ .stream ∧
      (Step.create rekeyedTarget).tumbles keptRows = false := by
  have hrun : (({} : Compiler).run ⟨0⟩ keptRows (.create rekeyedTarget) (Memo.start none)).1 =
      .ok (.one rekeyedText) := by decide +kernel
  have hlist : (Compiler.createPlan keptRows rekeyedTarget).partition? keptRows = some "A" := by
    decide +kernel
  have hedit : (({} : Compiler).rawClauses keptRows (Compiler.createPlan keptRows rekeyedTarget)
      (Memo.start none)).1.map (fun raw => raw.edit keptRows .plain "A") = .ok "A" := by
    decide +kernel
  obtain ⟨d, hd, htext, hretention, hkind, -⟩ := retention_kept_iff {} ⟨0⟩ keptRows
    (.create rekeyedTarget) (Memo.start none) (.one rekeyedText) rfl hrun rekeyedText
    (mem_singleton_self _)
  have hrekeys : d.Rekeys keptRows := by
    cases hd with
    | create _ _ raw h =>
      rw [h] at hedit
      have hcolumn : raw.edit keptRows .plain "A" = "A" := Except.ok.inj hedit
      refine ⟨"A", hlist, ?_⟩
      change Partition.identifiers (raw.edit keptRows .plain "A") ≠ []
      rw [hcolumn]
      decide +kernel
  refine ⟨hrun, d, hd, htext, hrekeys, (hretention _).2 ⟨rfl, .inl rfl⟩, fun hstream => ?_, rfl⟩
  exact (hkind.1 hstream).2 hrekeys

end StreamQuery
