import Mathlib.Data.List.Sort
import StreamQuery.Proofs.HubBuckets

/-!
# The names of a plan

A plan keeps its rules and the names it leaves out in name order, so it is fixed by what it holds
under each name (`NameMap.ext_get?`, `NameSet.ext_mem`).

* Where the members of an outline have different names, what becomes of a member does not depend on
  the others (`ofOutline_fates`).
* A merged plan holds under each name what the second plan holds there, and else what the first
  holds.  But a plan is asked up to case, and of two spellings of a name the smaller one answers,
  whichever plan it came from (`rule?_merge_iff`).
-/

namespace StreamQuery

open List Text

/-! ## Maps and sets by what they hold -/

namespace NameMap

variable {α : Type*} {m other : NameMap α}

/-- The first entry of a map to pass a test has the least such name. -/
lemma find?_eq_some_iff (test : String → Bool) {entry : String × α} :
    m.entries.find? (fun e => test e.1) = some entry ↔
      entry ∈ m.entries ∧ test entry.1 ∧
        ∀ e ∈ m.entries, test e.1 → ¬ e.1 < entry.1 := by
  have hsorted := m.sorted
  rw [find?_eq_some_iff_append]
  constructor
  · rintro ⟨htest, before, after, hsplit, hbefore⟩
    rw [hsplit] at hsorted ⊢
    obtain ⟨-, hafter, -⟩ := pairwise_append.1 hsorted
    refine ⟨by simp, htest, fun e he hpass hlt => ?_⟩
    rcases mem_append.1 he with he | he
    · exact absurd hpass (by simpa using hbefore e he)
    · rcases mem_cons.1 he with rfl | he
      · exact String.lt_irrefl _ hlt
      · exact String.lt_asymm hlt ((pairwise_cons.1 hafter).1 e he)
  · rintro ⟨hmem, htest, hleast⟩
    obtain ⟨before, after, hsplit⟩ := append_of_mem hmem
    rw [hsplit] at hsorted hleast
    refine ⟨htest, before, after, hsplit, fun e he => ?_⟩
    have hlt := (pairwise_append.1 hsorted).2.2 e he entry mem_cons_self
    rw [Bool.not_eq_true', ← Bool.not_eq_true]
    exact fun hpass => hleast e (mem_append_left _ he) hpass hlt

/-- A name is found with a value exactly if they are an entry. -/
lemma get?_eq_some_iff {name : String} {value : α} :
    m.get? name = some value ↔ (name, value) ∈ m.entries := by
  unfold get?
  rw [Option.map_eq_some_iff]
  constructor
  · rintro ⟨entry, hfind, rfl⟩
    obtain ⟨hmem, hname, -⟩ := (find?_eq_some_iff (· == name)).1 hfind
    rw [← eq_of_beq hname]
    exact hmem
  · intro hmem
    refine ⟨(name, value), (find?_eq_some_iff (· == name)).2 ⟨hmem, by simp, ?_⟩, rfl⟩
    intro e _ hname
    rw [eq_of_beq hname]
    exact String.lt_irrefl _

/-- The names of a map are those that are found. -/
lemma mem_names_iff {name : String} : name ∈ m.names ↔ ∃ value, m.get? name = some value := by
  simp only [names, mem_map, get?_eq_some_iff, Prod.exists, exists_and_right, exists_eq_right]

/-- Maps with the same value under each name are equal. -/
lemma ext_get? (h : ∀ name value, m.get? name = some value ↔ other.get? name = some value) :
    m = other := by
  have hasymm : Std.Asymm fun a b : String × α => a.1 < b.1 := ⟨fun _ _ => String.lt_asymm⟩
  refine ext (m.sorted.eq_of_mem_iff other.sorted fun entry => ?_)
  simpa only [get?_eq_some_iff] using h entry.1 entry.2

/-- A union looks a name up in the second map first. -/
lemma get?_union (m other : NameMap α) (name : String) :
    (m.union other).get? name = (other.get? name).or (m.get? name) := by
  unfold union
  obtain ⟨entries, hsorted⟩ := other
  change (entries.foldl _ m).get? name = ((entries.find? _).map _).or _
  induction entries generalizing m with
  | nil => rfl
  | cons entry rest ih =>
    obtain ⟨hfirst, hrest⟩ := pairwise_cons.1 hsorted
    rw [foldl_cons, ih _ hrest, get?_insert]
    by_cases hname : name = entry.1
    · subst hname
      have hnone : rest.find? (fun e => e.1 == entry.1) = none := by
        refine find?_eq_none.2 fun e he heq => ?_
        have hlt := hfirst e he
        rw [eq_of_beq heq] at hlt
        exact String.lt_irrefl _ hlt
      simp [hnone]
    · simp [hname, Ne.symm hname]

/-- An entry of a union is in the second map, or only in the first. -/
lemma mem_entries_union {entry : String × α} :
    entry ∈ (m.union other).entries ↔
      entry ∈ other.entries ∨ (other.get? entry.1 = none ∧ entry ∈ m.entries) := by
  obtain ⟨name, value⟩ := entry
  simp only [← get?_eq_some_iff, get?_union, Option.or_eq_some_iff]

/-- A name of no entry is not found. -/
lemma get?_eq_none {name : String} (h : ∀ e ∈ m.entries, e.1 ≠ name) : m.get? name = none :=
  Option.eq_none_iff_forall_ne_some.2 fun _ hvalue => h _ (get?_eq_some_iff.1 hvalue) rfl

/-- An entry of a union is the first to pass a test, if no passing name of either map is smaller. -/
lemma find?_union_eq_some {test : String → Bool} {entry : String × α}
    (hmem : entry ∈ (m.union other).entries) (htest : test entry.1)
    (hfirst : ∀ e ∈ m.entries, test e.1 → ¬ e.1 < entry.1)
    (hsecond : ∀ e ∈ other.entries, test e.1 → ¬ e.1 < entry.1) :
    (m.union other).entries.find? (fun e => test e.1) = some entry := by
  refine (find?_eq_some_iff test).2 ⟨hmem, htest, fun e he => ?_⟩
  rcases mem_entries_union.1 he with he | ⟨-, he⟩
  · exact hsecond e he
  · exact hfirst e he

/-- The first entry of a union to pass a test is the first of the two maps', by name, and that of
the second where both have the name. -/
lemma find?_union (test : String → Bool) (m other : NameMap α) :
    (m.union other).entries.find? (fun e => test e.1) =
      Option.merge (fun a b => if a.1 < b.1 then a else b)
        (m.entries.find? fun e => test e.1) (other.entries.find? fun e => test e.1) := by
  cases ha : m.entries.find? fun e => test e.1 with
  | none =>
    have hnone := find?_eq_none.1 ha
    cases hb : other.entries.find? fun e => test e.1 with
    | none =>
      refine find?_eq_none.2 fun e he => ?_
      rcases mem_entries_union.1 he with he | ⟨-, he⟩
      · exact find?_eq_none.1 hb e he
      · exact hnone e he
    | some b =>
      obtain ⟨hmem, htest, hleast⟩ := (find?_eq_some_iff test).1 hb
      exact find?_union_eq_some (mem_entries_union.2 (.inl hmem)) htest
        (fun e he hpass => absurd hpass (hnone e he)) hleast
  | some a =>
    obtain ⟨hmem, htest, hleast⟩ := (find?_eq_some_iff test).1 ha
    cases hb : other.entries.find? fun e => test e.1 with
    | none =>
      have hnone := find?_eq_none.1 hb
      have hfresh := get?_eq_none fun e he hname => hnone e he (hname ▸ htest)
      exact find?_union_eq_some (mem_entries_union.2 (.inr ⟨hfresh, hmem⟩)) htest hleast
        fun e he hpass => absurd hpass (hnone e he)
    | some b =>
      obtain ⟨hmem', htest', hleast'⟩ := (find?_eq_some_iff test).1 hb
      rw [Option.merge_some_some]
      split
      · next hlt =>
        have hfresh := get?_eq_none fun e he hname =>
          hleast' e he (hname ▸ htest) (hname ▸ hlt)
        exact find?_union_eq_some (mem_entries_union.2 (.inr ⟨hfresh, hmem⟩)) htest hleast
          fun e he hpass hless => hleast' e he hpass (String.lt_trans hless hlt)
      · next hlt =>
        refine find?_union_eq_some (mem_entries_union.2 (.inl hmem')) htest'
          (fun e he hpass hless => ?_) hleast'
        rcases Std.lt_trichotomy a.1 e.1 with hae | hae | hae
        · exact hlt (String.lt_trans hae hless)
        · exact hlt (hae ▸ hless)
        · exact hleast e he hpass hae

end NameMap

/-- Sets with the same members are equal. -/
lemma NameSet.ext_mem {s other : NameSet} (h : ∀ name, name ∈ s.members ↔ name ∈ other.members) :
    s = other :=
  ext (s.sorted.eq_of_mem_iff other.sorted h)

namespace HubPlan

/-! ## The plan of an outline -/

section

variable {o : Outline} {m : OutlineMember}

/-- True for a member with an aggregate that is no raw window start. -/
def readsColumn (m : OutlineMember) : Bool :=
  !sameName m.label windowStartRaw &&
    (m.role == .aggregate || (m.role == .computed && m.expr.hasAggregate))

/-- True for a raw window start, and for what is computed without aggregate. -/
def isLater (m : OutlineMember) : Bool :=
  sameName m.label windowStartRaw || (m.role == .computed && !m.expr.hasAggregate)

/-- A member with a label has a rule exactly if it reads a hub column. -/
lemma isSome_memberRule? (available : Option NameSet) (h : allBlank m.label = false) :
    (memberRule? available m).isSome = readsColumn m := by
  unfold memberRule? readsColumn
  cases hraw : sameName m.label windowStartRaw with
  | true => simp
  | false =>
    cases m.role with
    | computed => cases hagg : m.expr.hasAggregate <;> simp [h]
    | _ => simp [h]

/-- A member with a label is left out exactly if it comes later. -/
lemma dropsMember_eq_isLater (h : allBlank m.label = false) : dropsMember m = isLater m := by
  simp [dropsMember, isLater, h]

/-- A member that reads a hub column does not come later. -/
lemma isLater_of_readsColumn (h : readsColumn m) : isLater m = false := by
  simp only [readsColumn, isLater, Bool.and_eq_true, Bool.or_eq_true, Bool.not_eq_true',
    beq_iff_eq] at h ⊢
  obtain ⟨hraw, hrole | ⟨-, hagg⟩⟩ := h
  · simp [hraw, hrole]
  · simp [hraw, hagg]

/-- A key or a plain value neither reads a hub column nor comes later. -/
lemma fate_of_plain (hrole : m.role = .key ∨ m.role = .value)
    (hraw : sameName m.label windowStartRaw = false) :
    readsColumn m = false ∧ isLater m = false := by
  rcases hrole with hrole | hrole <;> simp [readsColumn, isLater, hrole, hraw]

variable (available : Option NameSet)

/-- If names differ, the rules of a plan are those of its members. -/
lemma get?_rules_ofOutline (hdistinct : (o.members.map (·.label)).Nodup) {name : String}
    {r : HubRule} :
    (ofOutline o available).rules.get? name = some r ↔
      ∃ m ∈ o.members, m.label = name ∧ memberRule? available m = some r := by
  have hsource : ∀ {value}, (ofOutline o available).rules.get? name = some value →
      ∃ m ∈ o.members, m.label = name ∧ memberRule? available m = some value := by
    intro value hvalue
    rcases mem_rules_foldl (NameMap.get?_eq_some_iff.1 hvalue) with hnil | hmember
    · simp [NameMap.empty] at hnil
    · exact hmember
  refine ⟨hsource, ?_⟩
  rintro ⟨m, hm, hlabel, hrule⟩
  have hsome : ((ofOutline o available).rules.get? name).isSome :=
    get?_foldl_isSome (Or.inr ⟨m, hm, hlabel, by simp [hrule]⟩)
  obtain ⟨value, hvalue⟩ := Option.isSome_iff_exists.1 hsome
  -- The entry was added by a member with the same name, and there is only one.
  obtain ⟨m', hm', hlabel', hrule'⟩ := hsource hvalue
  have hsame := inj_on_of_nodup_map hdistinct hm' hm (hlabel'.trans hlabel.symm)
  rw [hsame, hrule] at hrule'
  rw [hrule', hvalue]

/-- A plan leaves out the labels of the members that are dropped. -/
lemma mem_exclude_ofOutline {name : String} :
    name ∈ (ofOutline o available).exclude.members ↔
      ∃ m ∈ o.members, dropsMember m ∧ m.label = name := by
  unfold ofOutline
  simp [mem_exclude_foldl, NameSet.empty]

/-- The order of members with different names is of no account. -/
lemma ofOutline_perm {members : List OutlineMember} (h : members.Perm o.members)
    (hdistinct : (o.members.map (·.label)).Nodup) :
    ofOutline { o with members } available = ofOutline o available := by
  have hdistinct' : (members.map (·.label)).Nodup := (h.map _).nodup_iff.2 hdistinct
  have hrules : (ofOutline { o with members } available).rules = (ofOutline o available).rules := by
    refine NameMap.ext_get? fun name r => ?_
    rw [get?_rules_ofOutline available hdistinct, get?_rules_ofOutline available hdistinct']
    simp only [h.mem_iff]
  have hexclude :
      (ofOutline { o with members } available).exclude = (ofOutline o available).exclude := by
    refine NameSet.ext_mem fun name => ?_
    simp only [mem_exclude_ofOutline, h.mem_iff]
  exact (mk.injEq _ _ _ _).mpr ⟨hrules, hexclude⟩

/-- If names differ, what holds of some member with the name of a member holds of that one. -/
lemma exists_label_iff (hdistinct : (o.members.map (·.label)).Nodup) (hm : m ∈ o.members)
    {P : OutlineMember → Prop} : (∃ m' ∈ o.members, m'.label = m.label ∧ P m') ↔ P m := by
  constructor
  · rintro ⟨m', hm', hlabel, h⟩
    rwa [inj_on_of_nodup_map hdistinct hm' hm hlabel] at h
  · exact fun h => ⟨m, hm, rfl, h⟩

/-- If names differ, a member finds its own rule under its label. -/
lemma get?_rules_label (hdistinct : (o.members.map (·.label)).Nodup) (hm : m ∈ o.members) :
    (ofOutline o available).rules.get? m.label = memberRule? available m := by
  refine Option.ext fun r => ?_
  rw [get?_rules_ofOutline available hdistinct, exists_label_iff hdistinct hm]

/-- The names with a rule are those of the members that read a hub column. -/
lemma mem_names_ofOutline (hblank : ∀ m ∈ o.members, allBlank m.label = false)
    (hdistinct : (o.members.map (·.label)).Nodup) (name : String) :
    name ∈ (ofOutline o available).rules.names ↔
      ∃ m ∈ o.members, m.label = name ∧ readsColumn m := by
  simp only [NameMap.mem_names_iff, get?_rules_ofOutline available hdistinct]
  constructor
  · rintro ⟨r, m, hm, hlabel, hrule⟩
    exact ⟨m, hm, hlabel, by rw [← isSome_memberRule? available (hblank m hm), hrule]; rfl⟩
  · rintro ⟨m, hm, hlabel, hreads⟩
    rw [← isSome_memberRule? available (hblank m hm)] at hreads
    obtain ⟨r, hrule⟩ := Option.isSome_iff_exists.1 hreads
    exact ⟨r, m, hm, hlabel, hrule⟩

/-- The names left out are those of the members that come later. -/
lemma mem_exclude_iff_isLater (hblank : ∀ m ∈ o.members, allBlank m.label = false) (name : String) :
    name ∈ (ofOutline o available).exclude.members ↔
      ∃ m ∈ o.members, m.label = name ∧ isLater m := by
  rw [mem_exclude_ofOutline]
  refine exists_congr fun m => and_congr_right fun hm => ?_
  rw [dropsMember_eq_isLater (hblank m hm), and_comm]

/-- Up to case, a plan has rules for members that read a hub column. -/
lemma isSome_rule?_ofOutline (hblank : ∀ m ∈ o.members, allBlank m.label = false)
    (hdistinct : (o.members.map (·.label)).Nodup) (label : String) :
    ((ofOutline o available).rule? label).isSome ↔
      ∃ m ∈ o.members, sameName m.label label ∧ readsColumn m := by
  have hnames : ((ofOutline o available).rule? label).isSome ↔
      ∃ name ∈ (ofOutline o available).rules.names, sameName name label := by
    simp [rule?, NameMap.names, find?_isSome]
  simp only [hnames, mem_names_ofOutline available hblank hdistinct]
  grind

/-- Up to case, a plan leaves out the names of members that come later. -/
lemma excludes_iff_isLater (hblank : ∀ m ∈ o.members, allBlank m.label = false) (label : String) :
    (ofOutline o available).excludes label ↔
      ∃ m ∈ o.members, sameName m.label label ∧ isLater m := by
  simp only [excludes, any_eq_true, mem_exclude_iff_isLater available hblank]
  grind

/-- Where the names of the members of an outline are not blank and all different, the names with a
rule are those of the members that read a hub column, the names left out are those of the members
that come later, and no name is both; parts of the key and plain columns are neither. A member has
the rule that it has alone, and the order of the members does not matter. Up to case, a plan answers
for the names that agree with one of these, and again not both ways if no two names agree. -/
theorem ofOutline_fates (o : Outline) (available : Option NameSet)
    (hblank : ∀ m ∈ o.members, Text.allBlank m.label = false)
    (hdistinct : (o.members.map (·.label)).Nodup) :
    (∀ name, name ∈ (ofOutline o available).rules.names ↔
      ∃ m ∈ o.members, m.label = name ∧ readsColumn m = true) ∧
    (∀ name, name ∈ (ofOutline o available).exclude.members ↔
      ∃ m ∈ o.members, m.label = name ∧ isLater m = true) ∧
    (∀ name ∈ (ofOutline o available).rules.names,
      name ∉ (ofOutline o available).exclude.members) ∧
    (∀ m ∈ o.members, m.role = .key ∨ m.role = .value →
      Text.sameName m.label windowStartRaw = false →
      m.label ∉ (ofOutline o available).rules.names ∧
        m.label ∉ (ofOutline o available).exclude.members) ∧
    (∀ m ∈ o.members, (ofOutline o available).rules.get? m.label =
      (ofOutline { o with members := [m] } available).rules.get? m.label) ∧
    (∀ members : List OutlineMember, members.Perm o.members →
      ofOutline { o with members } available = ofOutline o available) ∧
    (∀ label, ((ofOutline o available).rule? label).isSome = true ↔
      ∃ m ∈ o.members, Text.sameName m.label label = true ∧ readsColumn m = true) ∧
    (∀ label, (ofOutline o available).excludes label = true ↔
      ∃ m ∈ o.members, Text.sameName m.label label = true ∧ isLater m = true) ∧
    ((o.members.map fun m => Text.lower m.label).Nodup →
      ∀ label, ((ofOutline o available).rule? label).isSome = true →
        (ofOutline o available).excludes label = false) := by
  have hnames := mem_names_ofOutline available hblank hdistinct
  have hexclude := mem_exclude_iff_isLater available hblank
  have hrule := isSome_rule?_ofOutline available hblank hdistinct
  have hexcludes := excludes_iff_isLater available hblank
  refine ⟨hnames, hexclude, fun name hname hout => ?_, fun m hm hrole hraw => ?_, fun m hm => ?_,
    fun members h => ofOutline_perm available h hdistinct, hrule, hexcludes,
    fun hcase label hsome => ?_⟩
  · obtain ⟨m, hm, rfl, hreads⟩ := (hnames name).1 hname
    rw [hexclude, exists_label_iff hdistinct hm, isLater_of_readsColumn hreads] at hout
    exact Bool.false_ne_true hout
  · obtain ⟨hreads, hlater⟩ := fate_of_plain hrole hraw
    rw [hnames, hexclude, exists_label_iff hdistinct hm, exists_label_iff hdistinct hm, hreads,
      hlater]
    exact ⟨Bool.false_ne_true, Bool.false_ne_true⟩
  · rw [get?_rules_label available hdistinct hm,
      get?_rules_label available (by simp) (mem_singleton_self m)]
  · rw [← Bool.not_eq_true, hexcludes]
    rintro ⟨m', hm', hsame', hlater⟩
    obtain ⟨m, hm, hsame, hreads⟩ := (hrule label).1 hsome
    -- Both members agree with the name, so with each other.
    rw [Text.sameName_iff] at hsame hsame'
    have heq : m' = m := inj_on_of_nodup_map hcase hm' hm (hsame'.trans hsame.symm)
    rw [heq, isLater_of_readsColumn hreads] at hlater
    exact Bool.false_ne_true hlater

/-- A raw window start, a symbol, an aggregate, a spread between aggregates, and a flag. -/
def barOutline : Outline where
  members :=
    let high : Expr := .call ⟨"Max", .extending, .double, none⟩ none []
    [{ label := "windowStartRaw", expr := .const .null, role := .value },
      { label := "Symbol", expr := .const .null, role := .key },
      { label := "High", expr := high, role := .aggregate, aggregate := some "Max" },
      { label := "Spread", expr := .binary .subtract high high, role := .computed },
      { label := "Flag", expr := .const .null, role := .computed }]
  hubInput := true

/-- The spread has a rule, the flag is left out, and the reversed members give the same plan. -/
theorem ofOutline_fates_barOutline :
    (∀ m ∈ barOutline.members, Text.allBlank m.label = false) ∧
    (barOutline.members.map (·.label)).Nodup ∧
    "Spread" ∈ (ofOutline barOutline none).rules.names ∧
    "Flag" ∈ (ofOutline barOutline none).exclude.members ∧
    ofOutline { barOutline with members := barOutline.members.reverse } none =
      ofOutline barOutline none := by
  have hblank : ∀ m ∈ barOutline.members, Text.allBlank m.label = false := by decide +kernel
  have hdistinct : (barOutline.members.map (·.label)).Nodup := by decide +kernel
  obtain ⟨hnames, hexclude, -, -, -, hperm, -⟩ := ofOutline_fates barOutline none hblank hdistinct
  have hspread : ∃ m ∈ barOutline.members, m.label = "Spread" ∧ readsColumn m := by
    decide +kernel
  have hflag : ∃ m ∈ barOutline.members, m.label = "Flag" ∧ isLater m := by
    decide +kernel
  exact ⟨hblank, hdistinct, (hnames _).2 hspread, (hexclude _).2 hflag, hperm _ (reverse_perm _)⟩

end

/-! ## Merged plans -/

section

variable (p other : HubPlan) (label : String)

/-- The entry that answers for a name. -/
def firstNamed? : Option (String × HubRule) :=
  p.rules.entries.find? fun entry => sameName entry.1 label

/-- A merged plan has under each name the rule of the second plan, or else that of the first, and
leaves out what either does. Up to case, it takes of the answers of both plans the one with the
smaller spelling, and that of the second plan if they are spelled alike. So it answers as the second
plan, or else as the first, exactly if no different rule of the first plan has a smaller spelling.
-/
theorem rule?_merge_iff :
    (∀ name, (p.merge other).rules.get? name =
      (other.rules.get? name).or (p.rules.get? name)) ∧
    (p.merge other).firstNamed? label =
      Option.merge (fun a b => if a.1 < b.1 then a else b) (p.firstNamed? label)
        (other.firstNamed? label) ∧
    ((p.merge other).rule? label = (other.rule? label).or (p.rule? label) ↔
      ∀ a ∈ p.firstNamed? label, ∀ b ∈ other.firstNamed? label, a.1 < b.1 → a.2 = b.2) ∧
    (p.merge other).excludes label = (p.excludes label || other.excludes label) := by
  have hentry : (p.merge other).firstNamed? label = _ :=
    NameMap.find?_union (Text.sameName · label) p.rules other.rules
  refine ⟨NameMap.get?_union p.rules other.rules, hentry, ?_, excludes_merge p other label⟩
  have hrule : ∀ q : HubPlan, q.rule? label = (q.firstNamed? label).map (·.2) := fun _ => rfl
  rw [hrule, hrule, hrule, hentry]
  change Option.map _ (Option.merge _ (p.firstNamed? label) (other.firstNamed? label)) = _ ↔ _
  cases p.firstNamed? label with
  | none => cases other.firstNamed? label <;> simp
  | some a =>
    cases other.firstNamed? label with
    | none => simp
    | some b =>
      change some (if a.1 < b.1 then a else b).2 = some b.2 ↔
        ∀ a' ∈ some a, ∀ b' ∈ some b, a'.1 < b'.1 → a'.2 = b'.2
      simp only [Option.mem_some_iff, forall_eq', Option.some.injEq]
      by_cases hlt : a.1 < b.1
      · rw [if_pos hlt]
        exact ⟨fun h _ => h, fun h => h hlt⟩
      · rw [if_neg hlt]
        exact iff_of_true rfl fun h => absurd h hlt

end

end HubPlan

end StreamQuery
