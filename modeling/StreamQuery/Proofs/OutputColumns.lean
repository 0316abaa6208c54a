import Mathlib.Data.List.Nodup
import Mathlib.Data.List.Perm.Subperm
import StreamQuery.Clause.Columns
import StreamQuery.Proofs.SplitTexts

/-!
# The columns of a SELECT list

A member of a record takes the first free name among its own and its numbered ones
(`freeName_firstFree`), and it is shown under that name unless one of the two is left out (`Shown`).
`selectBody_columns` is the statement about a whole SELECT list.  `selectBody_idle_hub` compares two
of them: a hub whose plan has nothing to say about a projection changes nothing.
-/

namespace StreamQuery

open List

/-! ## Free names -/

lemma numbered_inj {name : String} {m n : Nat} (h : numbered name m = numbered name n) : m = n := by
  unfold numbered at h
  have hdigits : Nat.toDigits 10 m = Nat.toDigits 10 n := by
    simpa using congrArg String.toList h
  rw [← Nat.ofDigitChars_ten_toDigits (n := m), hdigits, Nat.ofDigitChars_ten_toDigits]

lemma numbered_ne (name : String) (n : Nat) : numbered name n ≠ name := by
  intro h
  have hlength := congrArg String.length h
  rw [numbered, String.length_append, String.length_append] at hlength
  have hone : ("_" : String).length = 1 := rfl
  omega

/-- The first name that is not taken among `name`, `name_1`, `name_2`, and so on. -/
inductive FirstFree (taken : List String) (name : String) : String → Prop
  | own (hfree : name ∉ taken) : FirstFree taken name name
  /-- The name is taken, and so is every smaller number. -/
  | numbered {k : Nat} (htaken : name ∈ taken) (hk : 1 ≤ k) (hfree : numbered name k ∉ taken)
      (hleast : ∀ j, 1 ≤ j → j < k → StreamQuery.numbered name j ∈ taken) :
      FirstFree taken name (numbered name k)

lemma FirstFree.not_mem {taken : List String} {name label : String}
    (h : FirstFree taken name label) : label ∉ taken := by
  cases h with
  | own hfree => exact hfree
  | numbered _ _ hfree _ => exact hfree

lemma exists_numbered_free {taken : List String} {name : String} (h : name ∈ taken) :
    ∃ i ∈ List.range taken.length, numbered name (i + 1) ∉ taken := by
  by_contra hall
  push Not at hall
  -- the name and its numbered names would be too many different names
  have hnodup : (name :: (List.range taken.length).map fun i => numbered name (i + 1)).Nodup := by
    refine nodup_cons.2 ⟨?_, List.Nodup.map_on ?_ nodup_range⟩
    · intro hmem
      obtain ⟨i, -, hi⟩ := mem_map.1 hmem
      exact numbered_ne name (i + 1) hi
    · intro i _ j _ hij
      exact Nat.succ.inj (numbered_inj hij)
  have hsubset :
      (name :: (List.range taken.length).map fun i => numbered name (i + 1)) ⊆ taken := by
    refine cons_subset.2 ⟨h, fun label hlabel => ?_⟩
    obtain ⟨i, hi, rfl⟩ := mem_map.1 hlabel
    exact hall i hi
  have hlength := (subperm_of_subset hnodup hsubset).length_le
  rw [length_cons, length_map, length_range] at hlength
  exact absurd hlength (Nat.not_succ_le_self _)

/-- The name that is chosen is the first free one. -/
theorem freeName_firstFree (taken : List String) (name : String) :
    FirstFree taken name (freeName taken name) := by
  unfold freeName
  by_cases h : name ∈ taken
  · rw [if_pos (contains_iff_mem.2 h), find?_map]
    obtain ⟨i, hi, hfree⟩ := exists_numbered_free h
    have hfound : ((List.range taken.length).find?
        ((fun candidate => !taken.contains candidate) ∘
          fun i => numbered name (i + 1))).isSome :=
      find?_isSome.2 ⟨i, hi, by simpa using hfree⟩
    obtain ⟨k, hk⟩ := Option.isSome_iff_exists.1 hfound
    obtain ⟨hkfree, -, hleast⟩ := find?_range_eq_some.1 hk
    rw [hk, Option.map_some, Option.getD_some]
    refine .numbered h (Nat.succ_pos k) (by simpa using hkfree) fun j hj hjk => ?_
    obtain ⟨j, rfl⟩ := Nat.exists_eq_succ_of_ne_zero (Nat.ne_of_gt hj)
    simpa using hleast j (Nat.lt_of_succ_lt_succ hjk)
  · rw [if_neg fun hmem => h (contains_iff_mem.1 hmem)]
    exact .own h

/-! ## The columns that are shown -/

namespace ColumnContext

/-- An output name is left out by the caller or the plan, ignoring case. -/
def LeavesOut (c : ColumnContext) (name : String) : Prop :=
  (∃ e ∈ c.exclude.members, Text.lower e = Text.lower name) ∨
    ∃ hub, c.hub = some hub ∧ ∃ e ∈ hub.plan.exclude.members, Text.lower e = Text.lower name

lemma excludes_iff {c : ColumnContext} {name : String} : c.excludes name ↔ c.LeavesOut name := by
  unfold excludes LeavesOut HubPlan.excludes
  simp only [Bool.or_eq_true, any_eq_true, Text.sameName_iff, Option.any_eq_true]

/-- What is shown for named members behind the `taken` names. -/
inductive Shown (c : ColumnContext) :
    (taken : List String) → List (String × Expr) → List (String × String) → Prop
  | nil (taken : List String) : Shown c taken [] []
  /-- The grouping key itself shows some of its columns. -/
  | keys {taken : List String} {name : String} {e : Expr} {rest : List (String × Expr)}
      {keys items : List (String × String)} (hkey : e.isGroupKey = true)
      (hkeys : keys.Sublist c.keyColumns) (h : Shown c (taken ++ keys.map (·.2)) rest items) :
      Shown c taken ((name, e) :: rest) (keys ++ items)
  /-- A member is not shown and takes no name. -/
  | hidden {taken : List String} {name label : String} {e : Expr} {rest : List (String × Expr)}
      {items : List (String × String)} (hkey : e.isGroupKey = false)
      (hlabel : FirstFree taken name label) (hout : c.LeavesOut name ∨ c.LeavesOut label)
      (h : Shown c taken rest items) : Shown c taken ((name, e) :: rest) items
  /-- A member is shown under the first free name. -/
  | column {taken : List String} {name label text : String} {e : Expr}
      {rest : List (String × Expr)} {items : List (String × String)} (hkey : e.isGroupKey = false)
      (hlabel : FirstFree taken name label) (hname : ¬ c.LeavesOut name)
      (hin : ¬ c.LeavesOut label) (htext : c.columnText name e = .ok text)
      (h : Shown c (taken ++ [label]) rest items) :
      Shown c taken ((name, e) :: rest) ((c.typed label text, label) :: items)

variable {c : ColumnContext}

/-- The key columns added: some, under names neither left out nor taken. -/
lemma addKeys_shown (l : ColumnList) : ∃ keys : List (String × String),
    keys.Sublist c.keyColumns ∧
      c.addKeys l = ⟨l.items ++ keys, l.used ++ keys.map (·.2)⟩ ∧
      (l.used.Nodup → (l.used ++ keys.map (·.2)).Nodup) ∧
      ∀ key ∈ keys, ¬ c.LeavesOut key.2 := by
  unfold addKeys
  induction c.keyColumns generalizing l with
  | nil => exact ⟨[], nil_sublist _, by simp, by simp, by simp⟩
  | cons column rest ih =>
    obtain ⟨key, name⟩ := column
    rw [foldl_cons]
    dsimp only
    by_cases hpassed : (c.excludes name || l.used.any fun u => Text.sameName u name)
    · rw [if_pos hpassed]
      obtain ⟨keys, hsub, hadd, hnodup, hin⟩ := ih l
      exact ⟨keys, hsub.cons _, hadd, hnodup, hin⟩
    · rw [if_neg hpassed]
      rw [Bool.or_eq_true, not_or] at hpassed
      obtain ⟨hshown, hfree⟩ := hpassed
      have hnew : name ∉ l.used := fun hmem =>
        hfree (any_eq_true.2 ⟨name, hmem, Text.sameName_self _⟩)
      obtain ⟨keys, hsub, hadd, hnodup, hin⟩ := ih (l.add key name)
      refine ⟨(key, name) :: keys, hsub.cons_cons _, ?_, fun hused => ?_, fun k hk => ?_⟩
      · rw [hadd, ColumnList.add]
        simp
      · have hconcat : (l.used ++ [name]).Nodup := nodup_append_comm.1 (nodup_cons.2 ⟨hnew, hused⟩)
        simpa [ColumnList.add] using hnodup hconcat
      · rcases mem_cons.1 hk with rfl | hk
        · exact fun hout => hshown (excludes_iff.2 hout)
        · exact hin k hk

/-- Members are shown under different names, and none is left out. -/
theorem addMembers_shown {grouped : Bool} {seen : Seen} {l l' : ColumnList}
    {members : List (String × Expr)} (h : c.addMembers grouped seen l members = .ok l')
    (hnodup : l.used.Nodup) : ∃ items, Shown c l.used members items ∧
      l' = ⟨l.items ++ items, l.used ++ items.map (·.2)⟩ ∧
      (l.used ++ items.map (·.2)).Nodup ∧ ∀ item ∈ items, ¬ c.LeavesOut item.2 := by
  induction members generalizing seen l with
  | nil =>
    cases h
    exact ⟨[], .nil _, by simp, by simpa using hnodup, by simp⟩
  | cons member rest ih =>
    obtain ⟨name, e⟩ := member
    obtain ⟨hkey, h⟩ | ⟨hkey, text, seen, htext, h⟩ := addMembers_cons h
    · obtain ⟨keys, hsub, hadd, hkeys, hin⟩ := addKeys_shown (c := c) l
      rw [hadd] at h
      obtain ⟨items, hshown, hl', hall, hitems⟩ := ih h (hkeys hnodup)
      refine ⟨keys ++ items, .keys hkey hsub hshown, ?_, ?_, fun item hitem => ?_⟩
      · rw [hl', map_append, append_assoc, append_assoc]
      · rwa [map_append, ← append_assoc]
      · exact (mem_append.1 hitem).elim (hin item) (hitems item)
    · have hlabel := freeName_firstFree l.used name
      unfold addColumn at h
      dsimp only at h
      split at h
      · next hout =>
        rw [Bool.or_eq_true, excludes_iff, excludes_iff] at hout
        obtain ⟨items, hshown, hrest⟩ := ih h hnodup
        exact ⟨items, .hidden hkey hlabel hout hshown, hrest⟩
      · next hin =>
        rw [Bool.or_eq_true, excludes_iff, excludes_iff, not_or] at hin
        have hconcat : (l.used ++ [freeName l.used name]).Nodup :=
          nodup_append_comm.1 (nodup_cons.2 ⟨hlabel.not_mem, hnodup⟩)
        obtain ⟨items, hshown, hl', hall, hitems⟩ := ih h hconcat
        refine ⟨_, .column hkey hlabel hin.1 hin.2 htext hshown, ?_, ?_, fun item hitem => ?_⟩
        · rw [hl', ColumnList.add]
          simp
        · simpa [ColumnList.add] using hall
        · rcases mem_cons.1 hitem with rfl | hitem
          · exact hin.2
          · exact hitems item hitem

lemma joined_items_ne {items : List (String × String)} (h : items ≠ []) :
    Text.joined ", " (items.map columnItem) ≠ "*" := by
  obtain ⟨item, rest, rfl⟩ := exists_cons_of_ne_nil h
  intro hstar
  -- the keyword between a column and its name
  have hmem : 'S' ∈ (columnItem item).toList := by simp [columnItem]
  have hjoined : 'S' ∈ (Text.joined ", " ((item :: rest).map columnItem)).toList :=
    Text.mem_joined hmem
  rw [hstar] at hjoined
  exact absurd hjoined (by decide)

end ColumnContext

/-- The columns of a record are those of its members, in their order. A member that is not the
grouping key itself is shown once, under the first free name among its own and its numbered ones,
unless its own name or that free name is left out, and then it takes no name. So the names differ
and none is left out. Everything is selected exactly if no column is shown. -/
theorem selectBody_columns (c : ColumnContext) (params : List Param) (typeName : Option String)
    (members : List (String × Expr)) (body : String)
    (h : c.selectBody ⟨params, .record typeName members⟩ = .ok body) :
    ∃ items : List (String × String), c.Shown [] members items ∧
      (items.map (·.2)).Nodup ∧ (∀ item ∈ items, ¬ c.LeavesOut item.2) ∧
      body = (if items.isEmpty then "*"
        else Text.joined ", " (items.map fun item => item.1 ++ " AS " ++ item.2)) ∧
      (body = "*" ↔ items = []) := by
  obtain ⟨_, -, h⟩ := ok_of_bind h
  obtain ⟨_, -, h⟩ := ok_of_bind h
  obtain ⟨texts, htexts, h⟩ := ok_of_bind h
  obtain ⟨l, hl, hcolumns⟩ := ok_of_bind htexts
  obtain ⟨items, hshown, rfl, hnodup, hin⟩ :=
    ColumnContext.addMembers_shown (ColumnContext.addMembers_of_ofRecord hl) nodup_nil
  cases hcolumns
  obtain rfl := eq_of_nonEmpty h
  refine ⟨items, hshown, hnodup, hin, by simp; rfl, ?_⟩
  by_cases hitems : items = []
  · simp [hitems]
  · simpa [hitems] using ColumnContext.joined_items_ne hitems

/-- Three members of one name, one with the name that the second gets, and one that is left out. -/
def repeatedNames : List (String × Expr) :=
  let column (name : String) : Expr := .member (.param ⟨"x", .unknown⟩) name .unknown false
  [("Id", column "A"), ("Id", column "B"), ("Id_1", column "C"), ("Note", column "D"),
    ("Id", column "E")]

/-- A repeated name gets the least free number; one left out gets none. -/
theorem selectBody_columns_repeatedNames :
    ColumnContext.selectBody { exclude := NameSet.empty.insert "NOTE" }
        ⟨[⟨"x", .unknown⟩], .record none repeatedNames⟩ =
      .ok "A AS Id, B AS Id_1, C AS Id_1_1, E AS Id_2" ∧
    ∃ items, ColumnContext.Shown { exclude := NameSet.empty.insert "NOTE" } [] repeatedNames items ∧
      (items.map (·.2)).Nodup ∧ items ≠ [] := by
  have hbody : ColumnContext.selectBody { exclude := NameSet.empty.insert "NOTE" }
      ⟨[⟨"x", .unknown⟩], .record none repeatedNames⟩ =
        .ok "A AS Id, B AS Id_1, C AS Id_1_1, E AS Id_2" := by decide +kernel
  obtain ⟨items, hshown, hnodup, -, -, hstar⟩ := selectBody_columns _ _ _ _ _ hbody
  exact ⟨hbody, items, hshown, hnodup, fun hnil => absurd (hstar.2 hnil) (by decide)⟩

/-! ## A hub without rules -/

/-- The names of the members of a projection that is a record. -/
def Lambda.memberNames (l : Lambda) : List String :=
  match l.body with
  | .record _ members => members.map (·.1)
  | _ => []

namespace ColumnContext

/-- The same without a hub. -/
def withoutHub (c : ColumnContext) : ColumnContext :=
  { c with hub := none }

variable {c : ColumnContext} {name : Option String}

lemma memberText_withoutHub (h : c.rule? name = none) :
    c.withoutHub.memberText name = c.memberText name := by
  have halias : c.hubAlias? name = none := by
    unfold hubAlias?
    rw [h]
    rfl
  have hnone : c.withoutHub.hubAlias? name = none := rfl
  funext m target
  unfold memberText
  rw [halias, hnone]
  rfl

/-- Where a hub has no rule for a name, calls are written as without a hub. -/
lemma callText_withoutHub (h : c.rule? name = none) (method : Method) (receiver : Option Expr)
    (args : List Expr) :
    c.withoutHub.callText name method receiver args = c.callText name method receiver args := by
  have htarget : c.hubTarget? name = none := by
    unfold hubTarget?
    rw [h]
    cases c.hub <;> rfl
  have hnone : c.withoutHub.hubTarget? name = none := rfl
  unfold callText
  rw [htarget, hnone, memberText_withoutHub h]
  rfl

lemma style_withoutHub (h : c.rule? name = none) : c.withoutHub.style name = c.style name := by
  have hcall : c.withoutHub.callText name = c.callText name := by
    funext method receiver args
    exact callText_withoutHub h method receiver args
  unfold style
  rw [memberText_withoutHub h, hcall]
  rfl

lemma columnText_withoutHub {label : String} (h : c.rule? (some label) = none) (e : Expr) :
    c.withoutHub.columnText label e = c.columnText label e := by
  have hruled : ∀ text, c.withoutHub.ruled label e text = c.ruled label e text := by
    intro text
    have hnone : c.withoutHub.rule? (some label) = none := rfl
    unfold ruled
    rw [h, hnone]
    rfl
  unfold columnText
  rw [style_withoutHub h]
  simp only [hruled]

section

variable (hexcludes : ∀ label, c.withoutHub.excludes label = c.excludes label)

include hexcludes

lemma addColumn_withoutHub (l : ColumnList) (label column : String) :
    c.withoutHub.addColumn l label column = c.addColumn l label column := by
  unfold addColumn
  simp only [hexcludes]
  rfl

lemma addKeys_withoutHub (l : ColumnList) : c.withoutHub.addKeys l = c.addKeys l := by
  unfold addKeys
  simp only [hexcludes]
  rfl

/-- A hub that leaves nothing out and has no rule for the members adds them as without a hub. -/
lemma addMembers_withoutHub (grouped : Bool) (seen : Seen) (l : ColumnList)
    (members : List (String × Expr)) (h : ∀ m ∈ members, c.rule? (some m.1) = none) :
    c.withoutHub.addMembers grouped seen l members = c.addMembers grouped seen l members := by
  induction members generalizing seen l with
  | nil => rfl
  | cons member rest ih =>
    obtain ⟨label, e⟩ := member
    have hrest : ∀ m ∈ rest, c.rule? (some m.1) = none := (forall_mem_cons.1 h).2
    rw [addMembers, addMembers, addKeys_withoutHub hexcludes,
      columnText_withoutHub (h _ mem_cons_self)]
    simp only [addColumn_withoutHub hexcludes, ih _ _ hrest]

/-- A hub that leaves nothing out and has no rule for the members leaves the items as they are. -/
lemma items_withoutHub (projection : Lambda)
    (h : ∀ label ∈ projection.memberNames, c.rule? (some label) = none) :
    c.withoutHub.items projection = c.items projection := by
  have hother : c.withoutHub.style none = c.style none := by
    refine style_withoutHub ?_
    unfold rule?
    cases c.hub <;> rfl
  unfold items
  unfold Lambda.memberNames at h
  cases hbody : projection.body with
  | record typeName members =>
    rw [hbody] at h
    have hmembers : ∀ m ∈ members, c.rule? (some m.1) = none := fun m hm =>
      h m.1 (mem_map_of_mem hm)
    dsimp only
    unfold ofRecord
    rw [addMembers_withoutHub hexcludes _ _ _ _ hmembers]
    rfl
  | param p => rfl
  | _ => simp only [hother]

end

end ColumnContext

/-- A hub whose plan leaves nothing out and has no rule for a member of the projection, ignoring
case, makes no difference to the SELECT list, nor to the fault. -/
theorem selectBody_idle_hub (c : ColumnContext) (hub : HubInput) (projection : Lambda)
    (hexclude : hub.plan.exclude = NameSet.empty)
    (hrules : ∀ entry ∈ hub.plan.rules.entries, ∀ name ∈ projection.memberNames,
      Text.lower entry.1 ≠ Text.lower name) :
    ColumnContext.selectBody { c with hub := some hub } projection =
      ColumnContext.selectBody { c with hub := none } projection := by
  have hexcludes : ∀ label, ColumnContext.excludes { c with hub := none } label =
      ColumnContext.excludes { c with hub := some hub } label := by
    intro label
    have hplan : hub.plan.excludes label = false := by
      rw [HubPlan.excludes, hexclude]
      rfl
    unfold ColumnContext.excludes
    rw [Option.any_some, hplan]
    rfl
  have hrule : ∀ label ∈ projection.memberNames,
      ColumnContext.rule? { c with hub := some hub } (some label) = none := by
    intro label hlabel
    have hfind :
        hub.plan.rules.entries.find? (fun entry => Text.sameName entry.1 label) = none := by
      refine find?_eq_none.2 fun entry hentry hsame => ?_
      exact hrules entry hentry label hlabel (Text.sameName_iff.1 hsame)
    change hub.plan.rule? label = none
    rw [HubPlan.rule?, hfind]
    rfl
  have hitems := ColumnContext.items_withoutHub (c := { c with hub := some hub }) hexcludes
    projection hrule
  unfold ColumnContext.selectBody
  rw [← hitems]
  rfl

/-- A plan with a rule for the column `Total`. -/
def totalPlan : HubPlan where
  rules := NameMap.empty.insert "Total" ⟨"SUMPRICE", some "Sum", false⟩

/-- A projection to one column under the name `Volume`. -/
def volumeRows : Lambda where
  params := [⟨"x", .unknown⟩]
  body := .record none [("Volume", .member (.param ⟨"x", .unknown⟩) "Price" .unknown false)]

/-- The rule for `Total` does not touch the column `Volume`. -/
theorem selectBody_idle_hub_volumeRows :
    ColumnContext.selectBody { hub := some ⟨totalPlan, "h"⟩ } volumeRows =
      ColumnContext.selectBody {} volumeRows ∧
    ColumnContext.selectBody {} volumeRows = .ok "PRICE AS Volume" := by
  refine ⟨selectBody_idle_hub {} ⟨totalPlan, "h"⟩ volumeRows rfl ?_, by decide +kernel⟩
  decide

end StreamQuery
