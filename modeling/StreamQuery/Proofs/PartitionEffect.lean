import StreamQuery.Proofs.Literals

/-!
# What a partition list changes

A partition list is folded into the grouping keys of a created stream, which makes the statement a
table.  Nothing else can be seen of it: the clauses are written before the list is looked at, and
the list reaches no clause but GROUP BY.  `CreatePlan.statement_cases` compares the two statements
of the same clauses, and `partition_changes_grouping_only` the two compilations.
-/

namespace StreamQuery

/-! ## Statements with other grouping keys -/

namespace CreateStatement

/-- The statement as a table with the given grouping keys. -/
def rekeyed (s : CreateStatement) (keys : String) : CreateStatement :=
  { s with kind := .table, clauses := { s.clauses with groupBy := some keys } }

/-- A statement from its name up to the place of the grouping keys. -/
def upToKeys (s : CreateStatement) : String :=
  " IF NOT EXISTS " ++ s.name ++ " " ++ s.sink.sql ++ " AS\n" ++ "SELECT " ++ s.clauses.select ++
    "\n" ++ s.clauses.source ++ Clauses.line "WHERE" s.clauses.filter

/-- A statement behind its grouping keys. -/
def behindKeys (s : CreateStatement) : String :=
  Clauses.line "HAVING" s.clauses.having ++ "\nEMIT CHANGES;"

lemma sql_keys (s : CreateStatement) :
    s.sql = "CREATE " ++ s.kind.keyword ++ s.upToKeys ++
      Clauses.line "GROUP BY" s.clauses.groupBy ++ s.behindKeys := by
  unfold sql upToKeys behindKeys Clauses.sql
  simp only [String.append_assoc]

lemma createsTable_iff (s : CreateStatement) :
    "CREATE TABLE ".toList <+: s.sql.toList ↔ s.kind = .table := by
  have hblank : ∃ rest, s.upToKeys.toList = ' ' :: rest := by
    refine ⟨s.upToKeys.toList.drop 1, ?_⟩
    unfold upToKeys
    simp only [String.append_assoc, String.toList_append]
    rfl
  obtain ⟨rest, hrest⟩ := hblank
  rw [sql_keys]
  simp only [String.toList_append, List.append_assoc, hrest]
  cases s.kind with
  | table => exact iff_of_true ⟨_, rfl⟩ rfl
  | stream =>
    refine iff_of_false ?_ (by decide)
    rintro ⟨more, hmore⟩
    cases hmore

end CreateStatement

/-! ## The partition list of a plan -/

lemma Partition.mergeInto_none_cases (list : String) :
    mergeInto none list = (none, false) ∨ ∃ keys, mergeInto none list = (some keys, true) := by
  unfold mergeInto
  split
  · exact .inl rfl
  · exact .inr ⟨_, rfl⟩

/-- A query allows no other key: it is joined, grouped or windowed, reads a table, or emits final
results. -/
def Query.KeepsKey (q : Query) : Prop :=
  1 < q.sources.length ∨ q.groupBy.isSome = true ∨ q.windows ≠ [] ∨ q.hopping.isSome = true ∨
    (∃ source ∈ q.sources, source.isTable = true) ∨ q.extras.emitsFinal = true

namespace CreatePlan

/-- The plan without its partition list. -/
def unpartitioned (p : CreatePlan) : CreatePlan :=
  { p with target := { p.target with partitionBy := none } }

variable {p : CreatePlan} {q : Query}

lemma not_keepsKey_of_partition? {partition : String} (h : p.partition? q = some partition) :
    ¬ q.KeepsKey := by
  unfold partition? at h
  cases hlist : (p.target.partitionBy.map Partition.tidy).filter (· != "") with
  | none =>
    rw [hlist] at h
    cases h
  | some list =>
    rw [hlist, Option.bind_eq_bind, Option.bind_some] at h
    split at h
    · next source hsources =>
      split at h
      · cases h
      · next hplain =>
        simp only [Bool.or_eq_true, not_or, Bool.not_eq_true, Bool.not_eq_false',
          List.isEmpty_iff] at hplain
        obtain ⟨⟨⟨⟨⟨htable, hgroup⟩, -⟩, hwindows⟩, hhopping⟩, hfinal⟩ := hplain
        rintro (hjoin | hgroup' | hwindows' | hhopping' | ⟨s, hs, htable'⟩ | hfinal')
        · rw [hsources] at hjoin
          exact Nat.lt_irrefl 1 hjoin
        · rw [hgroup] at hgroup'
          cases hgroup'
        · exact hwindows' hwindows
        · rw [hhopping] at hhopping'
          cases hhopping'
        · rw [hsources, List.mem_singleton] at hs
          rw [hs, htable] at htable'
          cases htable'
        · rw [hfinal] at hfinal'
          cases hfinal'
    · cases h

/-- The statement of a plan once its grouping keys are known. -/
def keyed (p : CreatePlan) (q : Query) (r : RawClauses) (keys : Option String × Bool) :
    CreateStatement where
  name := p.target.name
  kind := if q.isAggregate || keys.2 then .table else .stream
  sink := p.sinkProperties q
  clauses :=
    { source := r.sourceText q p.target.options.keyPath
      select := r.selectText q p.target.options.keyPath
      filter := r.filter.map (r.edit q p.target.options.keyPath)
      groupBy := keys.1
      having := r.having.map (r.edit q p.target.options.keyPath) }

lemma statement_eq_keyed (p : CreatePlan) (q : Query) (r : RawClauses) :
    p.statement q r = p.keyed q r (r.grouping q p.target.options.keyPath (p.partition? q)) := rfl

/-- The statement without a partition list keeps the written grouping keys. -/
lemma statement_unpartitioned (p : CreatePlan) (q : Query) (r : RawClauses) :
    p.unpartitioned.statement q r =
      p.keyed q r (r.groupBy.map (r.edit q p.target.options.keyPath), false) := rfl

/-- New grouping keys make the statement a table. -/
lemma keyed_merged (p : CreatePlan) (q : Query) (r : RawClauses) (written : Option String)
    (keys : String) :
    p.keyed q r (some keys, true) = (p.keyed q r (written, false)).rekeyed keys := by
  unfold keyed CreateStatement.rekeyed
  simp only [Bool.or_true, if_true]

variable {r : RawClauses}

lemma statement_of_partition?_none (hpartition : p.partition? q = none) :
    p.statement q r = p.unpartitioned.statement q r := by
  rw [statement_unpartitioned, statement_eq_keyed]
  unfold RawClauses.grouping
  rw [hpartition]
  rfl

/-- A list that is kept becomes the grouping keys if it has something to merge. -/
lemma statement_merged {list : String} (hpartition : p.partition? q = some list)
    (hgroup : r.groupBy = none) :
    let merged :=
      Partition.mergeInto none (Partition.dedup (r.edit q p.target.options.keyPath list))
    merged.2 = false ∧ p.statement q r = p.unpartitioned.statement q r ∨
      merged.2 = true ∧ (p.unpartitioned.statement q r).clauses.groupBy = none ∧
        ∃ keys, p.statement q r = (p.unpartitioned.statement q r).rekeyed keys := by
  rw [statement_eq_keyed, statement_unpartitioned]
  unfold RawClauses.grouping
  rw [hpartition, hgroup, Option.map_none, Option.map_some]
  obtain hdropped | ⟨keys, hmerged⟩ :=
    Partition.mergeInto_none_cases (Partition.dedup (r.edit q p.target.options.keyPath list))
  · exact .inl ⟨congrArg Prod.snd hdropped, congrArg (p.keyed q r) hdropped⟩
  · exact .inr ⟨congrArg Prod.snd hmerged, rfl, keys,
      (congrArg (p.keyed q r) hmerged).trans (p.keyed_merged q r none keys)⟩

/-- A statement is the one without its partition list, or that one under other grouping keys where
it had none. -/
lemma statement_cases (hkeys : r.groupBy.isSome = q.groupBy.isSome) :
    p.statement q r = p.unpartitioned.statement q r ∨
      (p.unpartitioned.statement q r).clauses.groupBy = none ∧ ¬ q.KeepsKey ∧
        ∃ keys, p.statement q r = (p.unpartitioned.statement q r).rekeyed keys := by
  cases hpartition : p.partition? q with
  | none => exact .inl (statement_of_partition?_none hpartition)
  | some list =>
    have hkeep := not_keepsKey_of_partition? hpartition
    have hgroup : r.groupBy = none := by
      rw [← Option.not_isSome_iff_eq_none, hkeys]
      exact fun hsome => hkeep (.inr (.inl hsome))
    obtain ⟨-, hsame⟩ | ⟨-, hnone, hkeyed⟩ := statement_merged hpartition hgroup
    · exact .inl hsame
    · exact .inr ⟨hnone, hkeep, hkeyed⟩

/-- A table is made exactly if the query aggregates or there are keys. -/
lemma kind_eq_table_iff (hkeys : r.groupBy.isSome = q.groupBy.isSome) :
    (p.statement q r).kind = .table ↔
      q.isAggregate ∨ (p.statement q r).clauses.groupBy.isSome := by
  have hplain : (p.unpartitioned.statement q r).kind = .table ↔
      q.isAggregate ∨ (p.unpartitioned.statement q r).clauses.groupBy.isSome := by
    rw [statement_unpartitioned]
    unfold keyed
    simp only [Bool.or_false, Option.isSome_map, hkeys]
    have hgrouped : q.groupBy.isSome → q.isAggregate := by
      intro hgroup
      unfold Query.isAggregate
      rw [hgroup]
      rfl
    rw [or_iff_left_of_imp hgrouped]
    cases q.isAggregate <;> decide
  obtain hsame | ⟨-, -, keys, hkeyed⟩ := statement_cases (p := p) hkeys
  · rw [hsame]
    exact hplain
  · rw [hkeyed]
    exact iff_of_true rfl (.inr rfl)

end CreatePlan

/-! ## Compilations with and without a partition list -/

namespace Compiler

variable {c : Compiler} {q : Query} {p : CreatePlan} {memo : Memo}

lemma groupBy_of_rawClauses {raw : RawClauses} (h : (c.rawClauses q p memo).1 = .ok raw) :
    raw.groupBy.isSome = q.groupBy.isSome := by
  obtain ⟨-, hkeys, -⟩ := c.parts_of_rawClauses q h
  unfold groupBy at hkeys
  cases hgroup : q.groupBy with
  | none =>
    rw [hgroup] at hkeys
    have hnone : none = raw.groupBy := Except.ok.inj hkeys
    rw [← hnone]
    rfl
  | some key =>
    rw [hgroup] at hkeys
    obtain ⟨body, -, hbody⟩ := ok_of_map_ok hkeys
    rw [← hbody]
    rfl

/-- A compilation for a good target is that of its clauses. -/
lemma create_of_check {scope : Scope} (target : CreateTarget)
    (h : checkTarget scope q target.name = .ok ()) :
    c.create scope q target memo =
      (((c.rawClauses q (createPlan q target) memo).1.map
          ((createPlan q target).statement q)).map CreateStatement.sql,
        (c.rawClauses q (createPlan q target) memo).2) := by
  unfold create
  rw [h]
  rfl

end Compiler

/-- The texts of a statement and of it under other grouping keys. -/
lemma CreateStatement.sql_rekeyed {s : CreateStatement} (h : s.clauses.groupBy = none)
    (keys : String) :
    s.sql = "CREATE " ++ s.kind.keyword ++ s.upToKeys ++ s.behindKeys ∧
      (s.rekeyed keys).sql =
        "CREATE TABLE" ++ s.upToKeys ++ ("\nGROUP BY " ++ keys) ++ s.behindKeys := by
  constructor
  · rw [sql_keys, h]
    unfold Clauses.line
    rw [String.append_empty]
  · rw [sql_keys]
    rfl

/-- A partition list changes the grouping keys of a created statement and nothing else. With and
without it the compilation fails alike and leaves the same memo. The statements have the same name,
sink, SELECT, FROM, WHERE and HAVING; they are equal, or the one without the list has no grouping
keys and the other is that text as a table with one GROUP BY line more. The statement is a table
exactly if the query aggregates or there are grouping keys, and the list is without effect where the
query keeps its key. -/
theorem partition_changes_grouping_only (c : Compiler) (scope : Scope) (q : Query)
    (target : CreateTarget) (partition : String) (memo : Memo) :
    let listed : CreateTarget := { target with partitionBy := some partition }
    let unlisted : CreateTarget := { target with partitionBy := none }
    let a := c.create scope q listed memo
    let b := c.create scope q unlisted memo
    (∀ fault, a.1 = .error fault ↔ b.1 = .error fault) ∧ a.2 = b.2 ∧
      ∀ sql sql', a.1 = .ok sql → b.1 = .ok sql' →
        ∃ s s' : CreateStatement,
          ((c.assemble q (Compiler.createPlan q listed) memo).1 = .ok s ∧ sql = s.sql) ∧
          ((c.assemble q (Compiler.createPlan q unlisted) memo).1 = .ok s' ∧ sql' = s'.sql) ∧
          (s.name = s'.name ∧ s.sink = s'.sink ∧ s.clauses.select = s'.clauses.select ∧
            s.clauses.source = s'.clauses.source ∧ s.clauses.filter = s'.clauses.filter ∧
            s.clauses.having = s'.clauses.having) ∧
          (sql = sql' ∨ s'.clauses.groupBy = none ∧ ∃ keys,
            sql' = "CREATE " ++ s'.kind.keyword ++ s'.upToKeys ++ s'.behindKeys ∧
            sql = "CREATE TABLE" ++ s'.upToKeys ++ ("\nGROUP BY " ++ keys) ++ s'.behindKeys) ∧
          ("CREATE TABLE ".toList <+: sql.toList ↔
            q.isAggregate = true ∨ s.clauses.groupBy.isSome = true) ∧
          (q.KeepsKey → sql = sql') := by
  intro listed unlisted a b
  cases hcheck : Compiler.checkTarget scope q target.name with
  | error fault =>
    have hfails : ∀ partition, c.create scope q { target with partitionBy := partition } memo =
        (.error fault, memo) := by
      intro partition
      unfold Compiler.create
      rw [hcheck]
    have ha : a = (.error fault, memo) := hfails (some partition)
    have hb : b = (.error fault, memo) := hfails none
    rw [ha, hb]
    refine ⟨fun fault => Iff.rfl, rfl, fun sql sql' hsql => ?_⟩
    cases hsql
  | ok _ =>
    -- The clauses do not depend on the list, so that both texts are made of the same ones.
    have ha : a = _ := Compiler.create_of_check listed hcheck
    have hb : b = _ := Compiler.create_of_check unlisted hcheck
    have hraw : c.rawClauses q (Compiler.createPlan q unlisted) memo =
        c.rawClauses q (Compiler.createPlan q listed) memo := rfl
    rw [hraw] at hb
    cases hwritten : (c.rawClauses q (Compiler.createPlan q listed) memo).1 with
    | error fault =>
      rw [hwritten] at ha hb
      rw [ha, hb]
      refine ⟨fun fault => Iff.rfl, rfl, fun sql sql' hsql => ?_⟩
      cases hsql
    | ok raw =>
      rw [hwritten] at ha hb
      rw [ha, hb]
      refine ⟨fun fault => iff_of_false nofun nofun, rfl, fun sql sql' hsql hsql' => ?_⟩
      cases hsql
      cases hsql'
      have hkeys := Compiler.groupBy_of_rawClauses hwritten
      refine ⟨(Compiler.createPlan q listed).statement q raw,
        (Compiler.createPlan q unlisted).statement q raw, ⟨?_, rfl⟩, ⟨?_, rfl⟩, ?_, ?_, ?_, ?_⟩
      · exact congrArg (Except.map _) hwritten
      · exact congrArg (Except.map _) hwritten
      · exact ⟨rfl, rfl, rfl, rfl, rfl, rfl⟩
      · obtain hsame | ⟨hnone, -, keys, hkeyed⟩ :=
          CreatePlan.statement_cases (p := Compiler.createPlan q listed) hkeys
        · exact .inl (congrArg CreateStatement.sql hsame)
        · refine .inr ⟨hnone, keys, (CreateStatement.sql_rekeyed hnone keys).1, ?_⟩
          rw [hkeyed]
          exact (CreateStatement.sql_rekeyed hnone keys).2
      · rw [CreateStatement.createsTable_iff]
        exact CreatePlan.kind_eq_table_iff hkeys
      · intro hkeep
        obtain hsame | ⟨-, hnot, -⟩ :=
          CreatePlan.statement_cases (p := Compiler.createPlan q listed) hkeys
        · exact congrArg CreateStatement.sql hsame
        · exact absurd hkeep hnot

end StreamQuery
