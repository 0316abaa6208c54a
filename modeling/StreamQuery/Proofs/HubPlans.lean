import Mathlib.Tactic.Common
import StreamQuery.Hub.Plan

/-!
# The rules of a plan, member by member

A plan is asked by name, ignoring case, so the answer for one member can come from another.  Where
no other member has its name, the rule found under the name of a member is the one that it adds
(`rule?_ofOutline`), and it is left out exactly if it asks for that itself (`excludes_ofOutline`).
Both follow from what one step of the run does (`addMember_eq`).
-/

namespace StreamQuery.HubPlan

open List

variable {available : Option NameSet} {m : OutlineMember} {p : HubPlan}

/-- The rule that a member adds to a plan, if it adds one. -/
def memberRule? (available : Option NameSet) (m : OutlineMember) : Option HubRule :=
  if Text.allBlank m.label || Text.sameName m.label windowStartRaw then none
  else match m.role with
  | .aggregate =>
    let column := if m.aggregate.any isAverage then hubColumn? m.expr available else none
    some ⟨column.getD (Text.identifier m.label), m.aggregate, false⟩
  | .computed =>
    if m.expr.hasAggregate then
      let target := ((hubColumn? m.expr available).or (m.column.filter (· != ""))).getD
        (Text.identifier m.label)
      some ⟨target, some (m.aggregate.getD "AVG"), false⟩
    else none
  | .key | .value => none

/-- True for a member that a plan leaves out. -/
def dropsMember (m : OutlineMember) : Bool :=
  !Text.allBlank m.label &&
    (Text.sameName m.label windowStartRaw || (m.role == .computed && !m.expr.hasAggregate))

/-! ## One step of the run -/

/-- A step adds a rule under its name, or leaves the name out, or does neither. -/
lemma addMember_eq (available : Option NameSet) (p : HubPlan) (m : OutlineMember) :
    addMember available p m =
      { rules := (memberRule? available m).elim p.rules (p.rules.insert m.label)
        exclude := if dropsMember m then p.exclude.insert m.label else p.exclude } := by
  unfold addMember memberRule? dropsMember
  cases hblank : Text.allBlank m.label with
  | true => simp
  | false =>
    cases hraw : Text.sameName m.label windowStartRaw with
    | true => simp
    | false =>
      cases m.role with
      | computed => cases hagg : m.expr.hasAggregate <;> simp
      | _ => simp

/-! ## The whole run -/

variable {members : List OutlineMember}

/-- Every entry comes from a member, under the name of that member. -/
lemma mem_rules_foldl {entry : String × HubRule}
    (h : entry ∈ (members.foldl (addMember available) p).rules.entries) :
    entry ∈ p.rules.entries ∨
      ∃ m ∈ members, m.label = entry.1 ∧ memberRule? available m = some entry.2 := by
  induction members generalizing p with
  | nil => exact Or.inl h
  | cons first rest ih =>
    rcases ih h with hstep | ⟨m, hm, hlabel, hrule⟩
    · rw [addMember_eq] at hstep
      cases hfirst : memberRule? available first with
      | none => exact Or.inl (by simpa [hfirst] using hstep)
      | some r =>
        rw [hfirst] at hstep
        rcases NameMap.mem_insertEntry hstep with rfl | hold
        · exact Or.inr ⟨first, mem_cons_self, rfl, hfirst⟩
        · exact Or.inl hold
    · exact Or.inr ⟨m, mem_cons_of_mem _ hm, hlabel, hrule⟩

/-- Every member that adds a rule leaves an entry under its name. -/
lemma get?_foldl_isSome {label : String}
    (h : (p.rules.get? label).isSome ∨
      ∃ m ∈ members, m.label = label ∧ (memberRule? available m).isSome) :
    ((members.foldl (addMember available) p).rules.get? label).isSome := by
  induction members generalizing p with
  | nil => simpa using h
  | cons first rest ih =>
    refine ih ?_
    rw [addMember_eq]
    rcases h with hold | ⟨m, hm, hlabel, hrule⟩
    · left
      cases memberRule? available first with
      | none => exact hold
      | some r =>
        rw [Option.elim_some, NameMap.get?_insert]
        split <;> simp [hold]
    · rcases mem_cons.1 hm with rfl | hm
      · left
        obtain ⟨r, hr⟩ := Option.isSome_iff_exists.1 hrule
        simp [hr, hlabel]
      · exact Or.inr ⟨m, hm, hlabel, hrule⟩

/-- The names left out are those of the members that ask for it. -/
lemma mem_exclude_foldl {name : String} :
    name ∈ (members.foldl (addMember available) p).exclude.members ↔
      name ∈ p.exclude.members ∨ ∃ m ∈ members, dropsMember m ∧ m.label = name := by
  induction members generalizing p with
  | nil => simp
  | cons first rest ih =>
    have hstep : name ∈ (addMember available p first).exclude.members ↔
        name ∈ p.exclude.members ∨ (dropsMember first ∧ first.label = name) := by
      rw [addMember_eq]
      cases dropsMember first with
      | true => simp [NameSet.insert, or_comm, eq_comm]
      | false => simp
    rw [foldl_cons, ih, hstep, or_assoc]
    simp only [mem_cons, exists_eq_or_imp]

/-- If no other member has its name, the rule found for a member is its own. -/
theorem rule?_ofOutline {o : Outline} (hm : m ∈ o.members)
    (h : ∀ m' ∈ o.members, Text.sameName m'.label m.label → m' = m) :
    (ofOutline o available).rule? m.label = memberRule? available m := by
  unfold rule?
  cases hfind : (ofOutline o available).rules.entries.find? fun entry =>
      Text.sameName entry.1 m.label with
  | some entry =>
    -- The entry found was added by a member of that name, so by `m`.
    have hname := find?_some hfind
    rcases mem_rules_foldl (mem_of_find?_eq_some hfind) with hnil | ⟨m', hm', hlabel, hrule⟩
    · simp [NameMap.empty] at hnil
    · have heq : m' = m := h m' hm' (by rw [hlabel]; exact hname)
      rw [← heq, hrule]
      rfl
  | none =>
    -- No entry has the name of `m`, not even one added by `m` itself.
    cases hrule : memberRule? available m with
    | none => rfl
    | some r =>
      have hget : ((ofOutline o available).rules.get? m.label).isSome :=
        get?_foldl_isSome (Or.inr ⟨m, hm, rfl, by simp [hrule]⟩)
      obtain ⟨r', hr'⟩ := Option.isSome_iff_exists.1 hget
      obtain ⟨entry, hentry, -⟩ := Option.map_eq_some_iff.1 hr'
      have hname : entry.1 = m.label := by simpa using find?_some hentry
      have hnone := find?_eq_none.1 hfind entry (mem_of_find?_eq_some hentry)
      rw [hname, Text.sameName_self] at hnone
      exact absurd rfl hnone

/-- If no other member has its name, a member alone decides whether it is left out. -/
theorem excludes_ofOutline {o : Outline} (hm : m ∈ o.members)
    (h : ∀ m' ∈ o.members, Text.sameName m'.label m.label → m' = m) :
    (ofOutline o available).excludes m.label = dropsMember m := by
  unfold excludes ofOutline
  rw [Bool.eq_iff_iff, any_eq_true]
  constructor
  · rintro ⟨name, hname, hsame⟩
    rcases mem_exclude_foldl.1 hname with hnil | ⟨m', hm', hdrops, rfl⟩
    · simp [NameSet.empty] at hnil
    · exact h m' hm' hsame ▸ hdrops
  · intro hdrops
    exact ⟨m.label, mem_exclude_foldl.2 (Or.inr ⟨m, hm, hdrops, rfl⟩), Text.sameName_self _⟩

end StreamQuery.HubPlan
