import Mathlib.Data.List.DropRight
import Mathlib.Data.List.Perm.Subperm
import StreamQuery.Proofs.ForcedAlias
import StreamQuery.Proofs.NamedColumns
import StreamQuery.Proofs.Retention

/-!
# When a partition list changes the key

The rows of a stream can be partitioned anew, which makes a table of the statement.  A list of
exactly the key columns is dropped.  Whether it is one is found out by counting: the list must have
as many columns as the source has key names, and each of them must be a key name.  A repeated column
is counted twice, so that `A, A` passes for the key `A, B` and does not pass for the key `A`
(`partition_rekeys_iff`).

A list that is not dropped becomes the grouping keys: its edits leave a column with an identifier in
it, unless the names of the keys are odd (`CreateTarget.identifiers_editedList`).
-/

namespace StreamQuery

open List Text StreamQuery.Partition

/-! ## Tidy lists -/

namespace Text

lemma trim_trim (s : List Char) : trim (trim s) = trim s := by
  have hstart : trimStart (trim s) = trim s := by
    obtain ⟨_, after, -, -, -, hhead⟩ := exists_append_trim s
    cases htrim : trim s with
    | nil => rfl
    | cons c rest =>
      rw [htrim] at hhead
      have hc : isBlank c = false := hhead c rfl
      rw [trimStart, dropWhile_cons, hc, if_neg Bool.false_ne_true]
  rw [trim, hstart, trim, trimEnd, trimEnd, reverse_reverse, dropWhile_idempotent]

end Text

namespace Partition

lemma isColumn_of_mem_columns {list column : String} (h : column ∈ columns list) :
    IsColumn column := by
  refine ⟨bne_iff_ne.1 (mem_filter.1 h).2, comma_not_mem_of_mem_columns h, ?_⟩
  obtain ⟨part, -, rfl⟩ := mem_map.1 (mem_filter.1 h).1
  rw [trimmed, String.toList_ofList, trim_trim]

lemma columns_joined_of_isColumn {parts : List String} (h : ∀ part ∈ parts, IsColumn part) :
    columns (joined ", " parts) = parts := by
  rw [columns_joined, flatMap_congr fun part hpart => (h part hpart).columns_eq,
    flatMap_singleton']

lemma columns_tidy (list : String) : columns (tidy list) = columns list :=
  columns_joined_of_isColumn fun _ hcolumn => isColumn_of_mem_columns hcolumn

lemma identifiers_tidy (list : String) : identifiers (tidy list) = identifiers list := by
  rw [identifiers, columns_tidy, identifiers]

end Partition

/-! ## The list of a plan -/

/-- A query for single-stream rows, without groups, windows and final results. -/
structure Query.ReadsStream (q : Query) (source : Source) : Prop where
  sources : q.sources = [source]
  stream : source.isTable = false
  groupBy : q.groupBy = none
  windows : q.windows = []
  hopping : q.hopping = none
  /-- Results are emitted as they change. -/
  emits : q.extras.emitsFinal = false

/-- Names count as the key of a source: as many as its key names, each one. -/
def Source.CountsAsKey (source : Source) (names : List String) : Prop :=
  source.keyNames ≠ [] ∧ names.length = source.keyNames.length ∧ names ⊆ source.keyNames

namespace CreatePlan

variable {p : CreatePlan} {q : Query} {source : Source} {list : String}

/-- The list of a plan is kept exactly if it does not count as the key. -/
lemma partition?_eq (hq : q.ReadsStream source) (hshape : p.shape = .unwindowed)
    (hlist : p.target.partitionBy = some list) (hnamed : identifiers list ≠ []) :
    p.partition? q = none ∧ source.CountsAsKey (identifiers list) ∨
      p.partition? q = some (tidy list) ∧
        ¬ source.CountsAsKey (identifiers list) := by
  have htidy : ((p.target.partitionBy.map tidy).filter (· != "")) =
      some (tidy list) := by
    have hne : tidy list ≠ "" := by
      intro hempty
      rw [← identifiers_tidy, hempty] at hnamed
      exact hnamed (by decide)
    rw [hlist, Option.map_some, Option.filter_some, if_pos (bne_iff_ne.2 hne)]
  have hcount : (!source.keyNames.isEmpty &&
      (identifiers list).length == source.keyNames.length &&
      (identifiers list).all source.keyNames.contains) ↔
        source.CountsAsKey (identifiers list) := by
    simp [Source.CountsAsKey, and_assoc, subset_def]
  have hpartition : p.partition? q =
      if (!source.keyNames.isEmpty &&
        (identifiers list).length == source.keyNames.length &&
        (identifiers list).all source.keyNames.contains) = true then none
      else some (tidy list) := by
    unfold partition?
    rw [htidy, Option.bind_eq_bind, Option.bind_some]
    simp only [hq.sources, hq.stream, hq.groupBy, hshape, hq.windows, hq.hopping, hq.emits,
      identifiers_tidy]
    rfl
  rw [hpartition]
  by_cases hkey : source.CountsAsKey (identifiers list)
  · exact .inl ⟨if_pos (hcount.2 hkey), hkey⟩
  · exact .inr ⟨if_neg (mt hcount.1 hkey), hkey⟩

/-- A list that is kept becomes the keys if it still has an identifier. -/
lemma statement_of_partition? {r : RawClauses} (hpartition : p.partition? q = some list)
    (hgroup : r.groupBy = none) :
    identifiers (r.edit q p.target.options.keyPath list) = [] ∧
        p.statement q r = p.unpartitioned.statement q r ∨
      identifiers (r.edit q p.target.options.keyPath list) ≠ [] ∧
        (p.unpartitioned.statement q r).clauses.groupBy = none ∧
        ∃ keys, p.statement q r = (p.unpartitioned.statement q r).rekeyed keys := by
  have hmerges := @mergeInto_none_iff (r.edit q p.target.options.keyPath list)
  obtain ⟨hdropped, hsame⟩ | ⟨hmerged, hkeyed⟩ := statement_merged hpartition hgroup
  · rw [hdropped] at hmerges
    refine .inl ⟨?_, hsame⟩
    by_contra hnamed
    exact Bool.false_ne_true (hmerges.2 hnamed)
  · exact .inr ⟨hmerges.1 hmerged, hkeyed⟩

end CreatePlan

/-! ## Edited lists -/

/-- A partition list as it comes to the grouping keys over a single source: the key columns are
styled, and the alias is dropped. -/
def CreateTarget.editedList (target : CreateTarget) (q : Query) (source : Source) (list : String) :
    String :=
  AliasScope.dropFromClause [source.onlyScope (target.naming source)]
    (styleKeys (KeyBinding.ofQuery q target.options.keyPath) (tidy list))

variable {q : Query} {source : Source}

/-- A list for the rows of a single stream keeps an identifier if the keys are written plainly or
have names that can end a column. -/
lemma CreateTarget.identifiers_editedList (hq : q.ReadsStream source) (target : CreateTarget)
    {list : String} (hnamed : identifiers list ≠ [])
    (hkeys : target.options.keyPath = .plain ∨ ∀ key ∈ source.keyNames, Partition.IsLastName key) :
    identifiers (target.editedList q source list) ≠ [] := by
  rw [← identifiers_tidy, identifiers_ne_nil_iff] at hnamed
  rw [identifiers_ne_nil_iff]
  have halias : AliasScope.IsShort (source.onlyScope (target.naming source)).aliasName 'o' :=
    ⟨show primaryAlias.toList = ['o'] by decide, .inl rfl⟩
  refine Partition.HasName.dropFromClause halias ?_
  rw [KeyBinding.ofQuery, hq.sources]
  rcases hkeys with hplain | hkeys
  · rw [styleKeys_plain]
    · exact hnamed
    · intro b hb
      rw [mem_singleton.1 hb, hplain, KeyBinding.ofSource, hq.stream]
      rfl
  · rw [styleKeys, String.toList_ofList]
    refine Partition.HasName.applyKeys ?_ ?_ hnamed
    · change ',' ∉ (if q.primaryAlias then primaryAlias else "").toList
      cases q.primaryAlias <;> decide
    · exact fun key hkey => hkeys key (KeyBinding.mem_keyNames_of_mem_keys hkey)

/-! ## Statements with and without a list -/

/-- The clauses of a created statement are those for every other partition list. -/
lemma Compiler.rawClauses_of_create {c : Compiler} {scope : Scope} {target : CreateTarget}
    {memo : Memo} {text : String} (h : (c.create scope q target memo).1 = .ok text) :
    ∃ raw, (c.rawClauses q (createPlan q target) memo).1 = .ok raw ∧
      ∀ partitionBy, (c.create scope q { target with partitionBy } memo).1 =
        .ok ((createPlan q { target with partitionBy }).statement q raw).sql := by
  obtain ⟨raw, hraw, -⟩ := assemble_of_create h
  refine ⟨raw, hraw, fun partitionBy => ?_⟩
  have hsame : (c.rawClauses q (createPlan q { target with partitionBy }) memo).1 = .ok raw := hraw
  unfold create at h
  split at h
  · cases h
  · next hcheck =>
    rw [create_of_check { target with partitionBy } hcheck, hsame]
    rfl

lemma CreateStatement.sql_ne_rekeyed {s : CreateStatement} (h : s.clauses.groupBy = none)
    (keys : String) : (s.rekeyed keys).sql ≠ s.sql := by
  obtain ⟨hsql, hkeyed⟩ := sql_rekeyed h keys
  rw [hsql, hkeyed]
  intro heq
  have hlength := congrArg String.length heq
  have hkeyword : s.kind.keyword.length ≤ 6 := by
    cases s.kind <;> decide
  have htable : "CREATE TABLE".length = 12 := by decide
  have hcreate : "CREATE ".length = 7 := by decide
  have hline : "\nGROUP BY ".length = 10 := by decide
  simp only [String.length_append] at hlength
  omega

/-- The text with a partition list is the one without exactly if the list counts as the key or has
no identifier after its edit; otherwise it is that of a table under other grouping keys. -/
lemma CreatePlan.sql_listed {p : CreatePlan} {list : String} {r : RawClauses}
    (hq : q.ReadsStream source) (hshape : p.shape = .unwindowed)
    (hlist : p.target.partitionBy = some list) (hnamed : identifiers list ≠ [])
    (hgroup : r.groupBy = none) :
    ((p.statement q r).sql = (p.unpartitioned.statement q r).sql ↔
      source.CountsAsKey (identifiers list) ∨
        identifiers (r.edit q p.target.options.keyPath (tidy list)) = []) ∧
    ((p.statement q r).sql ≠ (p.unpartitioned.statement q r).sql →
      (p.unpartitioned.statement q r).clauses.groupBy = none ∧
        ∃ keys, p.statement q r = (p.unpartitioned.statement q r).rekeyed keys) := by
  obtain ⟨hkept, hkey⟩ | ⟨hkept, hkey⟩ := partition?_eq hq hshape hlist hnamed
  · have hsame : (p.statement q r).sql = (p.unpartitioned.statement q r).sql :=
      congrArg _ (statement_of_partition?_none hkept)
    exact ⟨iff_of_true hsame (.inl hkey), fun hne => absurd hsame hne⟩
  · obtain ⟨hempty, hsame⟩ | ⟨hedited, hnone, keys, hkeyed⟩ := statement_of_partition? hkept hgroup
    · rw [hsame]
      exact ⟨iff_of_true rfl (.inr hempty), fun hne => absurd rfl hne⟩
    · have hne : (p.statement q r).sql ≠ (p.unpartitioned.statement q r).sql := by
        rw [hkeyed]
        exact CreateStatement.sql_ne_rekeyed hnone keys
      exact ⟨iff_of_false hne (not_or.2 ⟨hkey, hedited⟩), fun _ => ⟨hnone, keys, hkeyed⟩⟩

/-- Counting tells the key of a source exactly if, of names that are all key names, there are as
many as key names just where none is missing. -/
lemma Source.countsAsKey_iff_same {names : List String} (hne : names ≠ []) :
    (source.CountsAsKey names ↔
        source.keyNames ≠ [] ∧ ∀ name, name ∈ names ↔ name ∈ source.keyNames) ↔
      (names ⊆ source.keyNames →
        (names.length = source.keyNames.length ↔ source.keyNames ⊆ names)) := by
  constructor
  · intro h hsub
    obtain ⟨name, hname⟩ := exists_mem_of_ne_nil names hne
    have hsome : source.keyNames ≠ [] := ne_nil_of_mem (hsub hname)
    constructor
    · intro hlength name hkey
      exact ((h.1 ⟨hsome, hlength, hsub⟩).2 name).2 hkey
    · intro hback
      exact (h.2 ⟨hsome, fun name => ⟨fun hname => hsub hname, fun hkey => hback hkey⟩⟩).2.1
  · intro h
    constructor
    · rintro ⟨hsome, hlength, hsub⟩
      exact ⟨hsome, fun name => ⟨fun hname => hsub hname, fun hkey => (h hsub).1 hlength hkey⟩⟩
    · rintro ⟨hsome, hsame⟩
      have hsub : names ⊆ source.keyNames := fun name hname => (hsame name).1 hname
      exact ⟨hsome, (h hsub).2 fun name hkey => (hsame name).2 hkey, hsub⟩

lemma length_eq_iff_subset {names keys : List String} (hnames : names.Nodup) (hkeys : keys.Nodup)
    (hsub : names ⊆ keys) : names.length = keys.length ↔ keys ⊆ names := by
  have hle := subperm_of_subset hnames hsub
  constructor
  · intro hlength
    exact (hle.perm_of_length_le (Nat.le_of_eq hlength.symm)).symm.subset
  · intro hback
    exact Nat.le_antisymm hle.length_le (subperm_of_subset hkeys hback).length_le

/-- A list with an identifier for the rows of a single stream is dropped or becomes the grouping
keys. If the statement can be created without the list, it can be with it. The two are the same
exactly if the identifiers of the list count as the key of the stream, or its edits leave no
identifier; otherwise the list makes a table, with one GROUP BY line more. The edits leave an
identifier where keys are written plainly or have names that can make the end of a column. Then the
list is dropped exactly if it names the key, in any order, provided that of identifiers that are all
key names there are as many as key names just where none is missing. -/
theorem partition_rekeys_iff (c : Compiler) (scope : Scope) {q : Query} {source : Source}
    (target : CreateTarget) (list : String) (memo : Memo) (hq : q.ReadsStream source)
    (hnamed : Partition.identifiers list ≠ []) {plain : String}
    (hplain : (c.create scope q { target with partitionBy := none } memo).1 = .ok plain) :
    ∃ text, (c.create scope q { target with partitionBy := some list } memo).1 = .ok text ∧
      (text = plain ↔ source.CountsAsKey (Partition.identifiers list) ∨
        Partition.identifiers (target.editedList q source list) = []) ∧
      (text ≠ plain → ∃ s keys,
        (c.assemble q (Compiler.createPlan q { target with partitionBy := none }) memo).1 = .ok s ∧
        plain = "CREATE " ++ s.kind.keyword ++ s.upToKeys ++ s.behindKeys ∧
        text = "CREATE TABLE" ++ s.upToKeys ++ ("\nGROUP BY " ++ keys) ++ s.behindKeys) ∧
      (target.options.keyPath = .plain ∨ (∀ key ∈ source.keyNames, Partition.IsLastName key) →
        Partition.identifiers (target.editedList q source list) ≠ []) ∧
      (Partition.identifiers (target.editedList q source list) ≠ [] →
        ((text = plain ↔ source.keyNames ≠ [] ∧
            ∀ name, name ∈ Partition.identifiers list ↔ name ∈ source.keyNames) ↔
          (Partition.identifiers list ⊆ source.keyNames →
            ((Partition.identifiers list).length = source.keyNames.length ↔
              source.keyNames ⊆ Partition.identifiers list)))) ∧
      (Partition.identifiers (target.editedList q source list) ≠ [] →
        (Partition.identifiers list).Nodup → source.keyNames.Nodup →
        (text = plain ↔ source.keyNames ≠ [] ∧
          ∀ name, name ∈ Partition.identifiers list ↔ name ∈ source.keyNames)) := by
  obtain ⟨raw, hraw, hsql⟩ := Compiler.rawClauses_of_create hplain
  have hgroup : raw.groupBy = none := by
    rw [← Option.not_isSome_iff_eq_none, Compiler.groupBy_of_rawClauses hraw, hq.groupBy]
    exact Bool.false_ne_true
  have hedit : raw.edit q target.options.keyPath (Partition.tidy list) =
      target.editedList q source list :=
    Compiler.edit_only hraw hq.sources target.options.keyPath (Partition.tidy list)
  have hunlisted : (Compiler.createPlan q { target with partitionBy := some list }).unpartitioned =
      Compiler.createPlan q { target with partitionBy := none } := rfl
  obtain ⟨hdropped, hrekeyed⟩ := CreatePlan.sql_listed
    (p := Compiler.createPlan q { target with partitionBy := some list }) hq rfl rfl hnamed hgroup
  have hkeyPath :
      (Compiler.createPlan q { target with partitionBy := some list }).target.options.keyPath =
        target.options.keyPath := rfl
  rw [hunlisted, hkeyPath, hedit] at hdropped
  rw [hunlisted] at hrekeyed
  rw [hsql none] at hplain
  obtain rfl := Except.ok.inj hplain
  refine ⟨_, hsql (some list), hdropped, fun hne => ?_, target.identifiers_editedList hq hnamed,
    fun hedited => ?_, fun hedited hlist hkey => ?_⟩
  · obtain ⟨hnone, keys, hkeyed⟩ := hrekeyed hne
    obtain ⟨hplain, htable⟩ := CreateStatement.sql_rekeyed hnone keys
    exact ⟨_, keys, congrArg (Except.map _) hraw, hplain, hkeyed ▸ htable⟩
  · rw [hdropped, or_iff_left hedited]
    exact Source.countsAsKey_iff_same hnamed
  · rw [hdropped, or_iff_left hedited]
    exact (Source.countsAsKey_iff_same hnamed).2 (length_eq_iff_subset hlist hkey)

/-- A stream with some key columns. -/
def streamByKeys (keys : List String) : Source :=
  keys.foldl (fun source key => source.withKey key .string) { typeName := "T" }

/-- The query for all rows of such a stream. -/
def rowsByKeys (keys : List String) : Query :=
  Query.Draft.build { sources := [streamByKeys keys] } 0

/-- The statement of that query without a partition list. -/
def rowsByKeysText : String :=
  "CREATE STREAM IF NOT EXISTS c WITH (KAFKA_TOPIC='c', KEY_FORMAT='AVRO', VALUE_FORMAT='AVRO') " ++
    "AS\nSELECT *\nFROM T\nEMIT CHANGES;"

/-- `A, A` is dropped for the key `A, B`, and makes a table for `A`. -/
theorem partition_rekeys_repeated :
    (({} : Compiler).create ⟨0⟩ (rowsByKeys ["A", "B"])
        { name := "c", partitionBy := some "A, A" } (Memo.start none)).1 = .ok rowsByKeysText ∧
      "B" ∈ (streamByKeys ["A", "B"]).keyNames ∧ "B" ∉ Partition.identifiers "A, A" ∧
    ∃ text, (({} : Compiler).create ⟨0⟩ (rowsByKeys ["A"])
        { name := "c", partitionBy := some "A, A" } (Memo.start none)).1 = .ok text ∧
      text ≠ rowsByKeysText ∧
      ∀ name, name ∈ Partition.identifiers "A, A" ↔ name ∈ (streamByKeys ["A"]).keyNames := by
  have hnames : Partition.identifiers "A, A" = ["A", "A"] := by decide +kernel
  have hnamed : Partition.identifiers "A, A" ≠ [] := by simp [hnames]
  have htwo : (streamByKeys ["A", "B"]).keyNames = ["A", "B"] := by
    unfold Source.keyNames Source.keyColumns
    rw [mergeSort_of_pairwise (by decide +kernel)]
    decide +kernel
  have hone : (streamByKeys ["A"]).keyNames = ["A"] := by
    unfold Source.keyNames Source.keyColumns
    rw [mergeSort_of_pairwise (by decide +kernel)]
    decide +kernel
  have hreads : ∀ keys, (streamByKeys keys).isTable = false →
      (rowsByKeys keys).ReadsStream (streamByKeys keys) :=
    fun _ hstream => ⟨rfl, hstream, rfl, rfl, rfl, rfl⟩
  have hplain : ∀ keys ∈ [["A", "B"], ["A"]], (({} : Compiler).create ⟨0⟩ (rowsByKeys keys)
      { name := "c" } (Memo.start none)).1 = .ok rowsByKeysText := by decide +kernel
  obtain ⟨text, htext, hsame, -⟩ := partition_rekeys_iff {} ⟨0⟩ { name := "c" } "A, A"
    (Memo.start none) (hreads ["A", "B"] rfl) hnamed (hplain _ (by decide))
  obtain ⟨text', htext', hsame', -, hlast, -⟩ := partition_rekeys_iff {} ⟨0⟩ { name := "c" } "A, A"
    (Memo.start none) (hreads ["A"] rfl) hnamed (hplain _ (by decide))
  rw [Source.CountsAsKey, hnames, htwo] at hsame
  rw [or_iff_left (hlast (.inl rfl)), Source.CountsAsKey, hnames, hone] at hsame'
  refine ⟨?_, ?_, ?_, text', htext', ?_, ?_⟩
  · rw [htext, hsame.2 (.inl ⟨by decide, rfl, by decide⟩)]
  · rw [htwo]
    decide
  · rw [hnames]
    decide
  · intro heq
    exact absurd (hsame'.1 heq).2.1 (by decide)
  · intro name
    rw [hnames, hone]
    simp

end StreamQuery
