import Mathlib.Data.List.Nodup
import StreamQuery.Proofs.CanonicalPartition

/-!
# Partition lists folded into the grouping keys

The columns of a partition list are appended to the grouping keys one by one, and a column whose
identifier is there already is passed over.  The result is the union of the two lists by
identifiers, in their order (`Partition.mergeInto_union`).

In the list itself two columns count as one only if their qualifiers agree as well.  So of the
columns `Home->City` and `Work->City`, which are both kept there, one is lost on the way into the
grouping keys (`Partition.mergeInto_dedup_iff`).
-/

namespace StreamQuery.Partition

open Text List

/-! ## Appended columns -/

/-- The columns whose identifier is neither a key's nor an earlier column's. -/
def newColumns (keys columns : List String) : List String :=
  (columns.zipIdx.filter fun x => groupKey x.1 ∉ keys.map groupKey ∧
    groupKey x.1 ∉ (columns.take x.2).map groupKey).map Prod.fst

/-- Columns are appended where they are new, behind some that are done. -/
lemma appendNew_after {keys reached passed : List String}
    (hreached : ∀ name, name ∈ reached.map groupKey ↔
      name ∈ keys.map groupKey ∨ name ∈ passed.map groupKey) (rest : List String) :
    appendNew reached rest = reached ++
      ((rest.zipIdx passed.length).filter fun x => groupKey x.1 ∉ keys.map groupKey ∧
        groupKey x.1 ∉ ((passed ++ rest).take x.2).map groupKey).map Prod.fst := by
  induction rest generalizing reached passed with
  | nil => simp [appendNew]
  | cons column rest ih =>
    have htake : (passed ++ column :: rest).take passed.length = passed := take_left
    have hnext : passed ++ column :: rest = passed ++ [column] ++ rest := by simp
    have hlength : passed.length + 1 = (passed ++ [column]).length := by simp
    rw [appendNew, zipIdx_cons, filter_cons, htake]
    by_cases hknown : groupKey column ∈ reached.map groupKey
    · have hold : ¬ (groupKey column ∉ keys.map groupKey ∧ groupKey column ∉ passed.map groupKey) :=
        fun h => ((hreached _).1 hknown).elim h.1 h.2
      rw [if_pos (contains_iff_mem.2 hknown), if_neg (by simpa using hold), hnext, hlength]
      refine ih fun name => ?_
      rw [hreached, map_append, mem_append, map_singleton, mem_singleton, ← or_assoc, ← hreached]
      exact (or_iff_left_of_imp fun h => h ▸ hknown).symm
    · have hnew : groupKey column ∉ keys.map groupKey ∧ groupKey column ∉ passed.map groupKey :=
        ⟨fun h => hknown ((hreached _).2 (.inl h)), fun h => hknown ((hreached _).2 (.inr h))⟩
      rw [if_neg (by simpa using hknown), if_pos (by simpa using hnew), map_cons, hnext,
        hlength, @ih (reached ++ [column]) (passed ++ [column]), append_assoc,
        singleton_append]
      intro name
      simp only [map_append, mem_append, hreached, or_assoc]

lemma appendNew_eq (keys columns : List String) :
    appendNew keys columns = keys ++ newColumns keys columns := by
  rw [@appendNew_after keys keys [] (by simp) columns, newColumns]
  rfl

section

variable {keys columns : List String}

/-- The identifiers are those of the keys and those of the columns. -/
lemma mem_names_appendNew {name : String} :
    name ∈ (appendNew keys columns).map groupKey ↔
      name ∈ keys.map groupKey ∨ name ∈ columns.map groupKey := by
  induction columns generalizing keys with
  | nil => simp [appendNew]
  | cons column columns ih =>
    rw [appendNew, map_cons, mem_cons]
    split
    · next hknown =>
      have hknown : groupKey column ∈ keys.map groupKey := contains_iff_mem.1 hknown
      rw [ih, ← or_assoc]
      exact or_congr_left (or_iff_left_of_imp fun h => h ▸ hknown).symm
    · rw [ih, map_append, mem_append, map_singleton, mem_singleton, or_assoc]

lemma mem_of_mem_appendNew {column : String} (h : column ∈ appendNew keys columns) :
    column ∈ keys ∨ column ∈ columns := by
  rw [appendNew_eq, mem_append] at h
  refine h.imp_right fun hnew => ?_
  obtain ⟨x, hx, rfl⟩ := mem_map.1 hnew
  exact fst_mem_of_mem_zipIdx (mem_filter.1 hx).1

lemma appendNew_of_known (h : ∀ column ∈ columns, groupKey column ∈ keys.map groupKey) :
    appendNew keys columns = keys := by
  induction columns with
  | nil => rfl
  | cons column columns ih =>
    obtain ⟨hfirst, hrest⟩ := forall_mem_cons.1 h
    rw [appendNew, if_pos (contains_iff_mem.2 hfirst), ih hrest]

end

lemma nodup_appendNew {keys : List String} (h : (keys.map groupKey).Nodup) (columns : List String) :
    ((appendNew keys columns).map groupKey).Nodup := by
  induction columns generalizing keys with
  | nil => exact h
  | cons column columns ih =>
    rw [appendNew]
    split
    · exact ih h
    · next hnew =>
      refine ih ?_
      rw [map_append, map_singleton, nodup_append]
      refine ⟨h, nodup_singleton _, fun name hname other hother heq => hnew ?_⟩
      rw [mem_singleton] at hother
      exact contains_iff_mem.2 (hother ▸ heq ▸ hname)

lemma appendNew_nil_eq_iff (columns : List String) :
    appendNew [] columns = columns ↔ (columns.map groupKey).Nodup := by
  constructor
  · intro h
    have hnodup := @nodup_appendNew [] nodup_nil columns
    rwa [h] at hnodup
  · intro h
    have hall : ∀ {keys columns : List String}, ((keys ++ columns).map groupKey).Nodup →
        appendNew keys columns = keys ++ columns := by
      intro keys columns
      induction columns generalizing keys with
      | nil => simp [appendNew]
      | cons column columns ih =>
        intro hnodup
        have hnew : groupKey column ∉ keys.map groupKey := by
          rw [map_append, nodup_append] at hnodup
          exact fun hmem => hnodup.2.2 _ hmem _ (by simp) rfl
        rw [appendNew, if_neg (by simpa using hnew), ih (by simpa using hnodup)]
        simp
    exact hall h

/-! ## The union -/

/-- The columns of the grouping keys, if there are any. -/
def keyColumns (groupBy : Option String) : List String :=
  groupBy.elim [] columns

/-- A list with columns is folded into the keys by appending the new ones. -/
lemma mergeInto_of_ne_nil {partition : String} (h : columns partition ≠ [])
    (groupBy : Option String) :
    mergeInto groupBy partition =
      (some (joined ", " (appendNew (keyColumns groupBy) (columns partition))), true) := by
  obtain ⟨column, rest, hcolumns⟩ := exists_cons_of_ne_nil h
  unfold mergeInto
  rw [hcolumns]
  cases groupBy <;> rfl

/-- The merged keys can be taken apart again. -/
lemma columns_joined_appendNew (groupBy : Option String) (partition : String) :
    columns (joined ", " (appendNew (keyColumns groupBy) (columns partition))) =
      appendNew (keyColumns groupBy) (columns partition) := by
  refine columns_joined_of_isColumn fun part hpart => ?_
  rcases mem_of_mem_appendNew hpart with hkey | hcolumn
  · cases groupBy with
    | none => cases hkey
    | some body => exact isColumn_of_mem_columns hkey
  · exact isColumn_of_mem_columns hcolumn

/-- Folding a partition list into the grouping keys is a union that keeps the order: behind the keys
come the columns whose identifier is neither that of a key nor of an earlier column. The identifiers
are those of both, and folding the list in again changes nothing. -/
theorem mergeInto_union (groupBy : Option String) (partition : String)
    (hsome : columns partition ≠ []) :
    ∃ merged, mergeInto groupBy partition = (some merged, true) ∧
      merged = joined ", " (columns merged) ∧
      columns merged =
        keyColumns groupBy ++ newColumns (keyColumns groupBy) (columns partition) ∧
      (∀ name, name ∈ (columns merged).map groupKey ↔
        name ∈ (keyColumns groupBy).map groupKey ∨ name ∈ (columns partition).map groupKey) ∧
      mergeInto (some merged) partition = (some merged, true) := by
  have hcolumns := columns_joined_appendNew groupBy partition
  refine ⟨_, mergeInto_of_ne_nil hsome groupBy, ?_, ?_, fun name => ?_, ?_⟩
  · rw [hcolumns]
  · rw [hcolumns, appendNew_eq]
  · rw [hcolumns]
    exact mem_names_appendNew
  · rw [mergeInto_of_ne_nil hsome, keyColumns, Option.elim_some, hcolumns, appendNew_of_known]
    exact fun column hcolumn => mem_names_appendNew.2 (.inr (mem_map_of_mem hcolumn))

/-- A key under another qualifier is passed over, as is a repeated column. -/
theorem mergeInto_union_brokers :
    columns "o.Broker, Symbol, s.SYMBOL" ≠ [] ∧
      ∃ merged,
        mergeInto (some "Broker, Venue") "o.Broker, Symbol, s.SYMBOL" = (some merged, true) ∧
        columns merged = ["Broker", "Venue", "Symbol"] ∧
        mergeInto (some merged) "o.Broker, Symbol, s.SYMBOL" = (some merged, true) := by
  have hsome : columns "o.Broker, Symbol, s.SYMBOL" ≠ [] := by decide +kernel
  have hnew : keyColumns (some "Broker, Venue") ++ newColumns (keyColumns (some "Broker, Venue"))
      (columns "o.Broker, Symbol, s.SYMBOL") = ["Broker", "Venue", "Symbol"] := by decide +kernel
  obtain ⟨merged, hmerged, -, hcolumns, -, hagain⟩ :=
    mergeInto_union (some "Broker, Venue") "o.Broker, Symbol, s.SYMBOL" hsome
  exact ⟨hsome, merged, hmerged, hcolumns.trans hnew, hagain⟩

/-! ## Lists in order -/

/-- Without grouping keys, a list becomes the keys with the first of its columns for each identifier
only. It becomes the keys as it is exactly if the identifiers differ; for a list that was put in
order without colons, exactly if no two columns have the same identifier and different qualifiers.
-/
theorem mergeInto_dedup_iff (list : String) (hne : dedup list ≠ "") :
    mergeInto none (dedup list) =
        (some (joined ", " (newColumns [] (columns (dedup list)))), true) ∧
      (mergeInto none (dedup list) = (some (dedup list), true) ↔
        ((columns (dedup list)).map groupKey).Nodup) ∧
      ((∀ column ∈ columns list, ':' ∉ column.toList) →
        (mergeInto none (dedup list) = (some (dedup list), true) ↔
          ∀ a ∈ columns list, ∀ b ∈ columns list,
            groupKey a ≠ "" → groupKey a = groupKey b → pair a = pair b)) := by
  have hjoined := joined_columns_dedup list
  have hsome : columns (dedup list) ≠ [] := by
    intro hnil
    rw [hnil] at hjoined
    exact hne (hjoined.symm.trans (by decide))
  have hmerged := mergeInto_of_ne_nil hsome none
  have hiff : mergeInto none (dedup list) = (some (dedup list), true) ↔
      ((columns (dedup list)).map groupKey).Nodup := by
    rw [hmerged, ← appendNew_nil_eq_iff]
    constructor
    · intro h
      have htext := Option.some.inj (Prod.mk.inj h).1
      have hcolumns := columns_joined_appendNew none (dedup list)
      rw [htext] at hcolumns
      exact hcolumns.symm
    · intro h
      change (some (joined ", " (appendNew [] (columns (dedup list)))), true) = _
      rw [h, hjoined]
  refine ⟨?_, hiff, fun hcolon => ?_⟩
  · rw [hmerged]
    change (some (joined ", " (appendNew [] (columns (dedup list)))), true) = _
    rw [appendNew_eq, nil_append]
  · have hcanonical := isCanonical_dedup hcolon
    have hnames : (columns (dedup list)).map groupKey =
        ((columns (dedup list)).map pair).map Prod.fst := by
      rw [map_map]
      rfl
    rw [hiff, hnames, nodup_map_iff_inj_on hcanonical.increasing.nodup]
    constructor
    · intro hinj a ha b hb hname hsame
      have hkept : ∀ c ∈ columns list, groupKey c = groupKey a →
          pair c ∈ (columns (dedup list)).map pair := fun c hc hca =>
        (hcanonical.pairs (pair c)).2 ⟨mem_map_of_mem hc, fun h => hname (hca ▸ h)⟩
      exact hinj (pair a) (hkept a ha rfl) (pair b) (hkept b hb hsame.symm) hsame
    · intro hall p hp q hq hpq
      obtain ⟨hp, hname⟩ := (hcanonical.pairs p).1 hp
      obtain ⟨a, ha, rfl⟩ := mem_map.1 hp
      obtain ⟨b, hb, rfl⟩ := mem_map.1 ((hcanonical.pairs q).1 hq).1
      exact hall a ha b hb hname hpq

/-- Of two columns with one identifier and different qualifiers, the second becomes no key. -/
theorem mergeInto_dedup_cities :
    dedup "Home->City, Work->City" = "Home->City, Work->City" ∧
      mergeInto none (dedup "Home->City, Work->City") = (some "Home->City", true) ∧
      ¬ mergeInto none (dedup "Home->City, Work->City") =
        (some (dedup "Home->City, Work->City"), true) := by
  have hdedup : dedup "Home->City, Work->City" = "Home->City, Work->City" := by
    unfold dedup items
    rw [mergeSort_of_pairwise (by decide +kernel)]
    decide +kernel
  have hne : dedup "Home->City, Work->City" ≠ "" := by
    rw [hdedup]
    decide
  obtain ⟨hmerged, hkept, -⟩ := mergeInto_dedup_iff "Home->City, Work->City" hne
  refine ⟨hdedup, hmerged.trans ?_, fun h => ?_⟩
  · rw [hdedup]
    decide +kernel
  · have hnodup := hkept.1 h
    rw [hdedup] at hnodup
    revert hnodup
    decide +kernel

end StreamQuery.Partition
