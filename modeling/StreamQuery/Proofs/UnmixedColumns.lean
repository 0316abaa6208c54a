import Mathlib.Data.List.Perm.Basic
import StreamQuery.Proofs.GroupKeyColumns

/-!
# Aggregates beside plain columns

Without a group, a record is a list of aggregates or a list of plain columns.  Whether the next
member fits does not depend on the columns collected so far, so the run over the members falls into
two parts (`addMembers_ok_iff`): every member has a text, and the sorts of the members can be noted
one after the other.  They can exactly if they are all the same (`noted_iff`), so a record that can
be written can be written in every order of its members (`selectBody_unmixed`).
-/

namespace StreamQuery

open List

/-! ## Checks in any order -/

namespace Expr

variable {members members' : List (String × Expr)}

lemma heightOfMembers_perm (h : members.Perm members') :
    heightOfMembers members = heightOfMembers members' := by
  induction h with
  | nil => rfl
  | cons m _ ih => rw [heightOfMembers, heightOfMembers, ih]
  | swap m m' rest =>
    simp only [heightOfMembers]
    omega
  | trans _ _ ih ih' => exact ih.trans ih'

lemma nodesOfMembers_perm (h : members.Perm members') :
    (nodesOfMembers members).Perm (nodesOfMembers members') := by
  induction h with
  | nil => exact List.Perm.nil
  | cons m _ ih =>
    rw [nodesOfMembers, nodesOfMembers]
    exact ih.append_left _
  | swap m m' rest =>
    simp only [nodesOfMembers, ← append_assoc]
    exact perm_append_comm.append_right _
  | trans _ _ ih ih' => exact ih.trans ih'

lemma checkSize_perm (typeName : Option String) (h : members.Perm members') :
    (record typeName members).checkSize = (record typeName members').checkSize := by
  have hheight : (record typeName members).height = (record typeName members').height := by
    rw [height, height, heightOfMembers_perm h]
  have hlength :
      (record typeName members).nodes.length = (record typeName members').nodes.length := by
    rw [nodes, nodes, length_cons, length_cons, (nodesOfMembers_perm h).length_eq]
  unfold checkSize
  rw [hheight, hlength]

lemma checkNesting_perm (typeName : Option String) (h : members.Perm members') :
    (record typeName members).checkNesting = (record typeName members').checkNesting := by
  have hany : (record typeName members).anyNode nestsAggregate =
      (record typeName members').anyNode nestsAggregate := by
    simp only [anyNode, nodes, any_cons, nestsAggregate, (nodesOfMembers_perm h).any_eq]
  unfold checkNesting
  rw [hany]

end Expr

namespace ColumnContext

/-! ## Sorts of members -/

/-- After members of one sort, exactly the members of that sort can follow. -/
lemma noted_after_iff (aggregate : Bool) (sorts : List Bool) :
    (∃ seen, sorts.foldlM Seen.note ⟨aggregate, !aggregate⟩ = .ok seen) ↔
      ∀ sort ∈ sorts, sort = aggregate := by
  induction sorts with
  | nil => simp [pure, Except.pure]
  | cons sort rest ih =>
    rw [foldlM_cons, forall_mem_cons]
    by_cases hsort : sort = aggregate
    · have hnote : Seen.note ⟨aggregate, !aggregate⟩ sort = .ok ⟨aggregate, !aggregate⟩ := by
        rw [hsort]
        cases aggregate <;> rfl
      rw [hnote]
      exact ih.trans (by simp [hsort])
    · have hnote : Seen.note ⟨aggregate, !aggregate⟩ sort = .error .mixedAggregates := by
        rw [Bool.eq_not_of_ne hsort]
        cases aggregate <;> rfl
      rw [hnote]
      simp [hsort, bind, Except.bind]

/-- The sorts of members can be noted exactly if they are all the same. -/
lemma noted_iff (sorts : List Bool) :
    (∃ seen, sorts.foldlM Seen.note {} = .ok seen) ↔
      (∀ sort ∈ sorts, sort) ∨ ∀ sort ∈ sorts, sort = false := by
  cases sorts with
  | nil => simp [pure, Except.pure]
  | cons sort rest =>
    have hnote : Seen.note {} sort = .ok ⟨sort, !sort⟩ := by cases sort <;> rfl
    rw [foldlM_cons, hnote]
    refine (noted_after_iff sort rest).trans ?_
    cases sort <;> simp

/-! ## The run over the members -/

/-- The members of a record that have a column of their own. -/
def ownMembers (members : List (String × Expr)) : List (String × Expr) :=
  members.filter fun m => !m.2.isGroupKey

variable (c : ColumnContext)

/-- Without a group, the columns can be written exactly if each member has a text and the sorts of
the members can be noted. -/
lemma addMembers_ok_iff (seen : Seen) (l : ColumnList) (members : List (String × Expr)) :
    (∃ l', c.addMembers false seen l members = .ok l') ↔
      (∀ m ∈ ownMembers members, ∃ text, c.columnText m.1 m.2 = .ok text) ∧
        ∃ seen', ((ownMembers members).map fun m => m.2.aggregates).foldlM Seen.note seen =
          .ok seen' := by
  induction members generalizing seen l with
  | nil => simp [addMembers, ownMembers, pure, Except.pure]
  | cons m rest ih =>
    rw [addMembers, ownMembers, filter_cons]
    cases hkey : m.2.isGroupKey with
    | true => exact ih seen (c.addKeys l)
    | false =>
      simp only [Bool.not_false, if_true, Bool.false_eq_true, if_false, forall_mem_cons,
        map_cons, foldlM_cons]
      cases hnote : seen.note m.2.aggregates with
      | error fault => simp [bind, Except.bind]
      | ok seen' =>
        cases htext : c.columnText m.1 m.2 with
        | error fault => simp [bind, Except.bind]
        | ok text =>
          exact (ih seen' (c.addColumn l m.1 text)).trans (by simp [bind, Except.bind, ownMembers])

variable {params : List Param} {members : List (String × Expr)}

/-- Without a group, an anonymous record has a SELECT body exactly if it passes the checks of a
projection and its columns can be written. -/
lemma selectBody_record_ok_iff (h : Lambda.isGrouped ⟨params, .record none members⟩ = false) :
    (∃ body, c.selectBody ⟨params, .record none members⟩ = .ok body) ↔
      (Expr.record none members).checkSize = .ok () ∧
      (Expr.record none members).checkNesting = .ok () ∧
      ∃ l, c.addMembers false {} {} members = .ok l := by
  unfold selectBody items ofRecord
  rw [h]
  constructor
  · rintro ⟨body, hbody⟩
    obtain ⟨_, hsize, hbody⟩ := ok_of_bind hbody
    obtain ⟨_, hnesting, hbody⟩ := ok_of_bind hbody
    obtain ⟨_, hitems, -⟩ := ok_of_bind hbody
    obtain ⟨l, hl, -⟩ := ok_of_bind hitems
    exact ⟨hsize, hnesting, l, hl⟩
  · rintro ⟨hsize, hnesting, l, hl⟩
    simp only [hsize, hnesting, bind, Except.bind, Option.isSome_none, Bool.false_eq_true, if_false,
      hl]
    exact ⟨_, nonEmpty_columns id rfl⟩

/-- Columns are written exactly if members have texts, and all aggregate or none. -/
lemma addMembers_start_ok_iff :
    (∃ l, c.addMembers false {} {} members = .ok l) ↔
      (∀ m ∈ members, m.2.isGroupKey = false → ∃ text, c.columnText m.1 m.2 = .ok text) ∧
      ((∀ m ∈ members, m.2.isGroupKey = false → m.2.aggregates) ∨
        ∀ m ∈ members, m.2.isGroupKey = false → m.2.aggregates = false) := by
  rw [addMembers_ok_iff, noted_iff]
  simp only [ownMembers, forall_mem_map, mem_filter, Bool.not_eq_true', and_imp]

/-- Without a group, an anonymous record has a SELECT body exactly if it passes the checks on its
size and on nested aggregates, each member other than the grouping key itself has a text, and these
members all aggregate or none does. So it has one in every order of its members. -/
theorem selectBody_unmixed (h : Lambda.isGrouped ⟨params, .record none members⟩ = false) :
    ((∃ body, c.selectBody ⟨params, .record none members⟩ = .ok body) ↔
      (Expr.record none members).checkSize = .ok () ∧
      (Expr.record none members).checkNesting = .ok () ∧
      (∀ m ∈ members, m.2.isGroupKey = false → ∃ text, c.columnText m.1 m.2 = .ok text) ∧
      ((∀ m ∈ members, m.2.isGroupKey = false → m.2.aggregates = true) ∨
        ∀ m ∈ members, m.2.isGroupKey = false → m.2.aggregates = false)) ∧
    (∀ members' : List (String × Expr), members'.Perm members →
      ((∃ body, c.selectBody ⟨params, .record none members'⟩ = .ok body) ↔
        ∃ body, c.selectBody ⟨params, .record none members⟩ = .ok body)) := by
  refine ⟨?_, fun members' hperm => ?_⟩
  · rw [c.selectBody_record_ok_iff h, c.addMembers_start_ok_iff]
  · have h' : Lambda.isGrouped ⟨params, .record none members'⟩ = false := h
    rw [c.selectBody_record_ok_iff h, c.selectBody_record_ok_iff h', c.addMembers_start_ok_iff,
      c.addMembers_start_ok_iff, Expr.checkSize_perm none hperm, Expr.checkNesting_perm none hperm]
    simp only [hperm.mem_iff]

end ColumnContext

/-- A row of one source. -/
def rowParam : Param := ⟨"x", .unknown⟩

/-- A column of a row as an output column of its own name. -/
def rowColumn (name : String) : String × Expr :=
  (name, .member (.param rowParam) name .unknown false)

/-- The number of rows as an output column. -/
def rowCount : String × Expr :=
  ("Rows", .call ⟨"Count", .extending, .int, none⟩ none [])

/-- Two columns can be selected in any order, but not beside the row count. -/
theorem selectBody_unmixed_rowCount :
    Lambda.isGrouped ⟨[rowParam], .record none [rowColumn "A", rowColumn "B"]⟩ = false ∧
    (∃ body, ColumnContext.selectBody {}
      ⟨[rowParam], .record none [rowColumn "B", rowColumn "A"]⟩ = .ok body) ∧
    ¬ ∃ body, ColumnContext.selectBody {}
      ⟨[rowParam], .record none [rowColumn "A", rowCount]⟩ = .ok body := by
  have hplain :
      Lambda.isGrouped ⟨[rowParam], .record none [rowColumn "A", rowColumn "B"]⟩ = false := rfl
  have hmixed : Lambda.isGrouped ⟨[rowParam], .record none [rowColumn "A", rowCount]⟩ = false := rfl
  refine ⟨hplain, ?_, ?_⟩
  · refine ((ColumnContext.selectBody_unmixed {} hplain).2 _ (List.Perm.swap _ _ _)).2 ?_
    exact ⟨"A AS A, B AS B", by decide +kernel⟩
  · rw [(ColumnContext.selectBody_unmixed {} hmixed).1]
    rintro ⟨-, -, -, hall | hnone⟩
    · exact absurd (hall (rowColumn "A") (by simp) (by decide)) (by decide)
    · exact absurd (hnone rowCount (by simp) (by decide)) (by decide +kernel)

end StreamQuery
