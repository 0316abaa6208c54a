import StreamQuery.Proofs.HubColumns
import StreamQuery.Proofs.Literals
import StreamQuery.Proofs.SplitTexts

/-!
# Buckets of hub rows

A projection over a hub that is a named record over a group reads its member `BucketStart` as the
start of the window.  The outline sees in that a computed member without an aggregate, and the plan
leaves such members out.  So the member is read and dropped again: without a result type, the SELECT
list is that of the projection without the member (`addMembers_filter`), and none of its columns has
the name.  A result type keeps the plan away, and then the member has its column.

`hub_bucket_kept_iff` puts the two together.  What it needs to know of the list is kept along the
members of the record (`addMembers_induction`): the names of its columns are those that are taken,
and none of them is left out.
-/

namespace StreamQuery

open List

/-! ## Records over a group -/

/-- True for the name of a bucket, ignoring case. -/
def isBucketName (name : String) : Bool :=
  Text.sameName name "BucketStart"

/-- A projection that is a named record over a group. -/
structure GroupRecord where
  group : Param
  others : List Param
  typeName : String
  members : List (String × Expr)
  isGroup : group.type.isGrouping = true

namespace GroupRecord

variable (r : GroupRecord)

/-- The projection. -/
def projection : Lambda :=
  ⟨r.group :: r.others, .record (some r.typeName) r.members⟩

/-- The start of the window. -/
def windowStart : Expr :=
  .call ⟨"WindowStart", .extending, .dateTime, none⟩ none [.param r.group]

/-- A member as it reads a hub. -/
def memberOnHub (m : String × Expr) : String × Expr :=
  if isBucketName m.1 then (m.1, r.windowStart) else m

/-- The record as it reads a hub. -/
def onHub : GroupRecord :=
  { r with members := r.members.map r.memberOnHub }

/-- The record without its buckets. -/
def withoutBuckets : GroupRecord :=
  { r with members := r.members.filter fun m => !isBucketName m.1 }

lemma forHub_projection : r.projection.forHub = r.onHub.projection := by
  unfold Lambda.forHub projection
  simp only [r.isGroup, if_true]
  rfl

lemma isGrouped_projection : r.projection.isGrouped := by
  unfold Lambda.isGrouped projection
  simp [r.isGroup]

lemma memberOnHub_fst (m : String × Expr) : (r.memberOnHub m).1 = m.1 := by
  unfold memberOnHub
  split <;> rfl

lemma eq_windowStart_of_mem_onHub {m : String × Expr} (hm : m ∈ r.onHub.members)
    (hname : isBucketName m.1) : m.2 = r.windowStart := by
  obtain ⟨m, -, rfl⟩ := mem_map.1 hm
  rw [memberOnHub_fst] at hname
  rw [memberOnHub, if_pos hname]

lemma mem_onHub {m : String × Expr} (hm : m ∈ r.members) (hname : isBucketName m.1) :
    (m.1, r.windowStart) ∈ r.onHub.members := by
  refine mem_map.2 ⟨m, hm, ?_⟩
  rw [memberOnHub, if_pos hname]

/-- Without its buckets, a record over a hub is the record without them. -/
lemma filter_onHub :
    (r.onHub.members.filter fun m => !isBucketName m.1) = r.withoutBuckets.members := by
  change (r.members.map r.memberOnHub).filter _ = r.members.filter _
  induction r.members with
  | nil => rfl
  | cons m rest ih =>
    rw [map_cons, filter_cons, filter_cons, memberOnHub_fst, ih]
    cases hname : isBucketName m.1 with
    | true => rfl
    | false =>
      have hsame : r.memberOnHub m = m := by
        rw [memberOnHub, hname]
        rfl
      rw [hsame]

end GroupRecord

/-! ## The plan of a record with a bucket -/

lemma sameName_of_isBucketName {a b : String} (ha : isBucketName a)
    (hb : isBucketName b) : Text.sameName a b := by
  rw [isBucketName, Text.sameName_iff] at ha hb
  rw [Text.sameName_iff, ha, hb]

lemma allBlank_of_isBucketName {name : String} (h : isBucketName name) :
    Text.allBlank name = false := by
  rw [isBucketName, Text.sameName_iff] at h
  have hletters := congrArg String.toList h
  rw [Text.lower, Text.lower, String.toList_ofList, String.toList_ofList] at hletters
  obtain ⟨c, rest, hname, hlower, -⟩ := map_eq_cons_iff.1 hletters
  have hblank : Text.isBlank c = false := by
    by_cases hc : c.toNat < 0x80
    · exact Text.ascii_induction (P := fun c => c.toLower = 'b' → Text.isBlank c = false)
        (by decide) hc hlower
    · unfold Char.toLower at hlower
      split at hlower
      · next hupper => exact absurd (show c.toNat ≤ 90 from hupper.2) (by omega)
      · rw [hlower]
        decide
  exact Text.allBlank_eq_false hblank (hname ▸ mem_cons_self)

lemma NameSet.mem_union {s other : NameSet} {name : String} :
    name ∈ (s.union other).members ↔ name ∈ s.members ∨ name ∈ other.members := by
  unfold NameSet.union
  induction other.members generalizing s with
  | nil => simp
  | cons first rest ih =>
    rw [foldl_cons, ih, mem_cons]
    simp only [NameSet.insert, NameSet.mem_insertMember]
    rw [or_assoc, or_left_comm]

namespace HubPlan

/-- A merged plan leaves out what either plan does. -/
lemma excludes_merge (p other : HubPlan) (name : String) :
    (p.merge other).excludes name = (p.excludes name || other.excludes name) := by
  rw [Bool.eq_iff_iff, Bool.or_eq_true]
  simp only [excludes, merge, any_eq_true, NameSet.mem_union, or_and_right, exists_or]

/-- A bucket that is the window start is left out. -/
lemma dropsMember_windowStart (r : GroupRecord) {name : String} (h : isBucketName name) :
    dropsMember (Outline.memberOf name r.windowStart) := by
  have hblank := allBlank_of_isBucketName h
  have hnone : r.windowStart.hasAggregate = false := rfl
  have hrole : (Outline.memberOf name r.windowStart).role = .computed := rfl
  unfold dropsMember
  rw [hrole]
  change (!Text.allBlank name && _)
  rw [hblank]
  change (_ || (_ && !r.windowStart.hasAggregate))
  rw [hnone]
  exact Bool.or_true _

/-- The plan of a record with a bucket leaves out all names of buckets. -/
lemma excludes_bucket {r : GroupRecord} (hbucket : ∃ m ∈ r.members, isBucketName m.1)
    (available : Option NameSet) {name : String} (hname : isBucketName name) :
    (ofOutline (Outline.ofProjection r.onHub.projection true) available).excludes name := by
  obtain ⟨m, hm, hlabel⟩ := hbucket
  refine any_eq_true.2 ⟨m.1, ?_, sameName_of_isBucketName hlabel hname⟩
  refine mem_exclude_foldl.2 (.inr ⟨Outline.memberOf m.1 r.windowStart, ?_,
    dropsMember_windowStart r hlabel, rfl⟩)
  exact mem_map.2 ⟨_, r.mem_onHub hm hlabel, rfl⟩

end HubPlan

/-! ## The columns of a record -/

namespace ColumnContext

variable {c : ColumnContext} {grouped : Bool} {l l' : ColumnList}

variable {seen : Seen} {members : List (String × Expr)}

/-- What every member of a record keeps holds of all its columns: a member is the grouping key, or
it has a text and adds a column. -/
lemma addMembers_induction {P : ColumnList → List (String × Expr) → Prop}
    (hkeys : ∀ l m rest, m.2.isGroupKey → P l (m :: rest) → P (c.addKeys l) rest)
    (hcolumn : ∀ l m rest text, m.2.isGroupKey = false → c.columnText m.1 m.2 = .ok text →
      P l (m :: rest) → P (c.addColumn l m.1 text) rest)
    (h : c.addMembers grouped seen l members = .ok l') (hstart : P l members) : P l' [] := by
  induction members generalizing seen l with
  | nil =>
    cases h
    exact hstart
  | cons m rest ih =>
    obtain ⟨hkey, h⟩ | ⟨hkey, text, seen', htext, h⟩ := addMembers_cons h
    · exact ih h (hkeys l m rest hkey hstart)
    · exact ih h (hcolumn l m rest text hkey htext hstart)

/-- The names that are taken are those of the columns, none of them left out. -/
structure IsKept (c : ColumnContext) (l : ColumnList) : Prop where
  used : l.used = l.items.map Prod.snd
  kept : ∀ item ∈ l.items, c.excludes item.2 = false

namespace IsKept

lemma add (h : c.IsKept l) {name : String} (hname : c.excludes name = false) (column : String) :
    c.IsKept (l.add column name) where
  used := by simp [ColumnList.add, h.used]
  kept := by
    intro item hitem
    rcases mem_append.1 hitem with hitem | hitem
    · exact h.kept item hitem
    · rw [mem_singleton.1 hitem]
      exact hname

lemma addKeys (h : c.IsKept l) : c.IsKept (c.addKeys l) := by
  unfold ColumnContext.addKeys
  induction c.keyColumns generalizing l with
  | nil => exact h
  | cons key rest ih =>
    refine ih ?_
    change c.IsKept (if c.excludes key.2 || l.used.any (fun u => Text.sameName u key.2) then l
      else l.add key.1 key.2)
    split
    · exact h
    · next hfree =>
      rw [Bool.or_eq_true, not_or] at hfree
      exact h.add (Bool.eq_false_iff.2 hfree.1) key.1

lemma addColumn (h : c.IsKept l) (name column : String) : c.IsKept (c.addColumn l name column) := by
  unfold ColumnContext.addColumn
  dsimp only
  split
  · exact h
  · next hfree =>
    rw [Bool.or_eq_true, not_or] at hfree
    exact h.add (Bool.eq_false_iff.2 hfree.2) _

end IsKept

lemma mem_addColumn {item : String × String} (h : item ∈ l.items) (name column : String) :
    item ∈ (c.addColumn l name column).items := by
  unfold addColumn
  dsimp only
  split
  · exact h
  · exact mem_append_left _ h

/-- After a member there is a column of its name, unless some name is left out. -/
lemma exists_column_addColumn (hl : c.IsKept l) (hall : ∀ name, c.excludes name = false)
    (name column : String) : ∃ item ∈ (c.addColumn l name column).items, item.2 = name := by
  by_cases hused : name ∈ l.used
  · rw [hl.used] at hused
    obtain ⟨item, hitem, hname⟩ := mem_map.1 hused
    exact ⟨item, mem_addColumn hitem name column, hname⟩
  · rw [addColumn_list hused, hall]
    exact ⟨_, mem_append_right _ mem_cons_self, rfl⟩

lemma isKept_addMembers (h : c.addMembers grouped seen l members = .ok l') (hl : c.IsKept l) :
    c.IsKept l' :=
  addMembers_induction (P := fun l _ => c.IsKept l) (fun _ _ _ _ hl => hl.addKeys)
    (fun _ _ _ _ _ _ hl => hl.addColumn _ _) h hl

lemma isKept_empty : c.IsKept {} where
  used := rfl
  kept := fun _ hitem => absurd hitem not_mem_nil

lemma isKept_ofRecord {typeName : String} (h : c.ofRecord grouped (some typeName) members = .ok l) :
    c.IsKept l :=
  isKept_addMembers (addMembers_of_ofRecord h) isKept_empty

/-- If no name is left out, every member but the key has its column. -/
lemma exists_column_addMembers (h : c.addMembers grouped seen l members = .ok l') (hl : c.IsKept l)
    (hall : ∀ name, c.excludes name = false) {m : String × Expr} (hm : m ∈ members)
    (hkey : m.2.isGroupKey = false) : ∃ item ∈ l'.items, item.2 = m.1 := by
  have hrun := addMembers_induction (P := fun l rest =>
    c.IsKept l ∧ (m ∈ rest ∨ ∃ item ∈ l.items, item.2 = m.1)) ?_ ?_ h ⟨hl, .inl hm⟩
  · exact hrun.2.resolve_left (not_mem_nil)
  · rintro l first rest hfirst ⟨hl, hleft | ⟨item, hitem, hname⟩⟩
    · rcases mem_cons.1 hleft with rfl | hleft
      · rw [hfirst] at hkey
        cases hkey
      · exact ⟨hl.addKeys, .inl hleft⟩
    · exact ⟨hl.addKeys, .inr ⟨item, (addKeys_list c l).1 item hitem, hname⟩⟩
  · rintro l first rest text - - ⟨hl, hleft | ⟨item, hitem, hname⟩⟩
    · rcases mem_cons.1 hleft with rfl | hleft
      · exact ⟨hl.addColumn _ _, .inr (exists_column_addColumn hl hall _ _)⟩
      · exact ⟨hl.addColumn _ _, .inl hleft⟩
    · exact ⟨hl.addColumn _ _, .inr ⟨item, mem_addColumn hitem _ _, hname⟩⟩

/-- Over a group, a member other than the grouping key adds its text. -/
lemma addMembers_member {m : String × Expr} (hkey : m.2.isGroupKey = false)
    (rest : List (String × Expr)) :
    c.addMembers true seen l (m :: rest) = (do
      let column ← c.columnText m.1 m.2
      c.addMembers true seen (c.addColumn l m.1 column) rest) := by
  rw [addMembers, hkey]
  rfl

/-- Members whose names are left out can be taken away from a record over a group. -/
lemma addMembers_filter (keep : String × Expr → Bool)
    (h : c.addMembers true seen l members = .ok l')
    (hdrop : ∀ m ∈ members, keep m = false → m.2.isGroupKey = false ∧ c.excludes m.1) :
    c.addMembers true seen l (members.filter keep) = .ok l' := by
  induction members generalizing l with
  | nil => exact h
  | cons m rest ih =>
    have hrest : ∀ m ∈ rest, keep m = false → m.2.isGroupKey = false ∧ c.excludes m.1 :=
      (forall_mem_cons.1 hdrop).2
    rw [filter_cons]
    cases hkeep : keep m with
    | true =>
      rw [if_pos rfl]
      cases hkey : m.2.isGroupKey with
      | true =>
        rw [addMembers, if_pos hkey] at h ⊢
        exact ih h hrest
      | false =>
        rw [addMembers_member hkey] at h ⊢
        obtain ⟨text, htext, h⟩ := ok_of_bind h
        rw [htext]
        exact ih h hrest
    | false =>
      -- the text of the member is written and then not added
      obtain ⟨hkey, hexcluded⟩ := hdrop m mem_cons_self hkeep
      rw [addMembers_member hkey] at h
      obtain ⟨text, -, h⟩ := ok_of_bind h
      have hsame : c.addColumn l m.1 text = l := by
        unfold addColumn
        rw [hexcluded]
        rfl
      rw [hsame] at h
      exact ih h hrest

/-- The check of the key members asks which members are parts of the key. -/
lemma checkKeyOrder_eq (c : ColumnContext) (members : List (String × Expr)) :
    c.checkKeyOrder members =
      if c.keyColumns.isEmpty || members.any fun m => m.2.isGroupKey then .ok ()
      else
        let names := (members.filter fun m => m.2.isGroupKeyPart).map Prod.fst
        let keys := c.keyColumns.map Prod.snd
        if names.length == keys.length && (names.zip keys).all fun pair =>
            Text.sameName pair.1 pair.2 then .ok ()
        else .error .keyOrder := rfl

/-- Members outside of the key do not matter to its check. -/
lemma checkKeyOrder_filter {keep : String × Expr → Bool}
    (hdrop : ∀ m ∈ members, keep m = false → m.2.isGroupKeyPart = false) :
    c.checkKeyOrder (members.filter keep) = c.checkKeyOrder members := by
  have hkeys : ((members.filter keep).any fun m => m.2.isGroupKey) =
      members.any fun m => m.2.isGroupKey := by
    rw [Bool.eq_iff_iff, any_eq_true, any_eq_true]
    constructor
    · rintro ⟨m, hm, hkey⟩
      exact ⟨m, (mem_filter.1 hm).1, hkey⟩
    · rintro ⟨m, hm, hkey⟩
      refine ⟨m, mem_filter.2 ⟨hm, ?_⟩, hkey⟩
      by_contra hdropped
      have hpart := hdrop m hm (Bool.eq_false_iff.2 hdropped)
      rw [Expr.isGroupKeyPart, hkey] at hpart
      cases hpart
  have hparts : ((members.filter keep).filter fun m => m.2.isGroupKeyPart) =
      members.filter fun m => m.2.isGroupKeyPart := by
    rw [filter_filter]
    refine filter_congr fun m hm => ?_
    cases hkeep : keep m with
    | true => exact Bool.and_true _
    | false => rw [hdrop m hm hkeep, Bool.and_false]
  rw [checkKeyOrder_eq, checkKeyOrder_eq, hkeys, hparts]

/-- If the names of buckets are left out, a record gives the columns that it gives without its
buckets. -/
lemma ofRecord_withoutBuckets {r : GroupRecord}
    (hexcluded : ∀ name, isBucketName name → c.excludes name)
    (h : c.ofRecord true (some r.typeName) r.onHub.members = .ok l) :
    c.ofRecord true (some r.typeName) r.withoutBuckets.members = .ok l := by
  have hdrop : ∀ m ∈ r.onHub.members, (!isBucketName m.1) = false →
      isBucketName m.1 ∧ m.2 = r.windowStart := by
    intro m hm hkeep
    have hname : isBucketName m.1 := by simpa using hkeep
    exact ⟨hname, r.eq_windowStart_of_mem_onHub hm hname⟩
  obtain ⟨_, hcheck, hmembers⟩ := ok_of_bind h
  rw [← r.filter_onHub]
  have hmembers' := addMembers_filter (fun m => !isBucketName m.1) hmembers ?_
  · change (do
      c.checkKeyOrder (r.onHub.members.filter fun m => !isBucketName m.1)
      c.addMembers true {} {} (r.onHub.members.filter fun m => !isBucketName m.1)) = _
    rw [checkKeyOrder_filter, hmembers']
    · have horder : c.checkKeyOrder r.onHub.members = .ok () := hcheck
      rw [horder]
      rfl
    · intro m hm hkeep
      rw [(hdrop m hm hkeep).2]
      rfl
  · intro m hm hkeep
    obtain ⟨hname, hstart⟩ := hdrop m hm hkeep
    rw [hstart]
    exact ⟨rfl, hexcluded _ hname⟩

end ColumnContext

/-! ## The SELECT list -/

/-- The SELECT list of columns. -/
def selectList (columns : List (String × String)) : String :=
  if columns.isEmpty then "*" else Text.joined ", " (columns.map columnItem)

/-- The SELECT list of a record is that of its columns. -/
lemma ColumnContext.columns_of_selectBody {c : ColumnContext} {projection : Lambda}
    {typeName : Option String} {members : List (String × Expr)}
    (hrecord : projection.body = .record typeName members) {body : String}
    (h : c.selectBody projection = .ok body) :
    ∃ l, c.ofRecord projection.isGrouped typeName members = .ok l ∧ body = selectList l.items := by
  obtain ⟨_, -, h⟩ := ok_of_bind h
  obtain ⟨_, -, h⟩ := ok_of_bind h
  obtain ⟨items, hitems, h⟩ := ok_of_bind h
  unfold ColumnContext.items at hitems
  rw [hrecord] at hitems
  obtain ⟨l, hl, hmap⟩ := ok_of_bind hitems
  refine ⟨l, hl, ?_⟩
  cases hmap
  have hbody : (if (l.items.map columnItem).isEmpty then "*"
      else Text.joined ", " (l.items.map columnItem)) = selectList l.items := by
    rw [selectList, isEmpty_map]
  exact (eq_of_nonEmpty h).symm.trans hbody

/-- The SELECT list of a record over a group is that of its columns. -/
lemma GroupRecord.columns_of_selectBody {c : ColumnContext} (r : GroupRecord) {body : String}
    (h : c.selectBody r.projection = .ok body) :
    ∃ l, c.ofRecord true (some r.typeName) r.members = .ok l ∧ body = selectList l.items := by
  have hrecord : r.projection.body = .record (some r.typeName) r.members := rfl
  have hcolumns := ColumnContext.columns_of_selectBody hrecord h
  rwa [r.isGrouped_projection] at hcolumns

namespace Compiler

/-- Without a result type, a hub projection has the derived plan with the caller's plan on top. -/
lemma selection_of_hub {q : Query} {options : RenderOptions} {outline : Outline}
    {selection : Selection} (hhub : outline.hubInput) (hresult : options.resultType = none)
    (h : (Compiler.selection q options (Memo.start (some outline))).1 = .ok selection) :
    ∃ caller available, q.extras.callerPlan = .ok caller ∧ q.extras.hubColumns = .ok available ∧
      selection = .hub ((HubPlan.ofOutline outline available).merge caller) := by
  have houtline : (Memo.start (some outline)).hubOutline? = some outline := by
    simp [Memo.hubOutline?, Memo.start, hhub]
  unfold Compiler.selection at h
  rw [hresult] at h
  dsimp only at h
  split at h
  · cases h
  · next caller hcaller =>
    rw [houtline] at h
    dsimp only at h
    split at h
    · cases h
    · next available havailable =>
      cases h
      exact ⟨caller, available, hcaller, havailable, rfl⟩

variable (c : Compiler) {q : Query} {r : GroupRecord}

/-- A windowed statement over a hub compiles the record as it reads a hub, with its outline. -/
lemma windowedProjection_of_hub {target : WindowedTarget}
    (hprojection : q.projection = some r.projection)
    (hinput : (inputName? q target.overrides.input).any c.settings.isHubSource) :
    c.windowedProjection q target (Memo.start none) =
      (some r.onHub.projection,
        Memo.start (some (Outline.ofProjection r.onHub.projection true))) := by
  obtain ⟨name, hname, hhub⟩ := (Option.any_eq_true _ _).1 hinput
  unfold windowedProjection hubProjection
  rw [hprojection, hname]
  dsimp only
  rw [hhub]
  simp only [Memo.start, Option.all_none, Bool.and_true, if_true, Memo.withOutline,
    r.forHub_projection, Option.some_or]

/-- What the columns of a record depend on. -/
def recordContext (q : Query) (r : GroupRecord) (groupBy : Option String) (selection : Selection) :
    ColumnContext :=
  c.columnContext (sourceAliases q r.projection.params q.primaryAlias) groupBy selection

lemma excludes_typed (groupBy : Option String) (result : ResultType) (name : String) :
    (c.recordContext q r groupBy (.typed result)).excludes name = false := rfl

lemma excludes_hub (groupBy : Option String) (plan : HubPlan) (name : String) :
    (c.recordContext q r groupBy (.hub plan)).excludes name = plan.excludes name := rfl

/-- The SELECT list of a record, and the columns that it is made of. -/
lemma columns_of_select {p : CreatePlan} {groupBy : Option String} {memo : Memo} {body : String}
    {keeps : Bool} (hprojection : p.projection = some r.projection)
    (h : (c.select q p groupBy memo).1 = .ok (body, keeps)) :
    ∃ selection l, (Compiler.selection q p.target.options memo).1 = .ok selection ∧
      (c.recordContext q r groupBy selection).ofRecord true (some r.typeName) r.members = .ok l ∧
      body = selectList l.items := by
  unfold select at h
  rw [hprojection] at h
  obtain ⟨selection, hselection, h⟩ := ok_of_bind h
  obtain ⟨text, htext, h⟩ := ok_of_bind h
  cases h
  obtain ⟨l, hl, hbody⟩ := r.columns_of_selectBody htext
  exact ⟨selection, l, hselection, hl, hbody⟩

/-- The SELECT list of a windowed statement over a hub is that of the record as it reads a hub. -/
lemma columns_of_hub {scope : Scope} {target : WindowedTarget} {d : Composition}
    (hd : c.Composes scope q (.windowed target) (Memo.start none) d)
    (hprojection : q.projection = some r.projection)
    (hinput : (inputName? q target.overrides.input).any c.settings.isHubSource) :
    ∃ selection l,
      (Compiler.selection q target.options
        (Memo.start (some (Outline.ofProjection r.onHub.projection true)))).1 = .ok selection ∧
      (c.recordContext q r d.raw.groupBy selection).ofRecord true (some r.typeName)
        r.onHub.members = .ok l ∧
      d.raw.select = selectList l.items := by
  cases hd with
  | windowed _ _ raw hraw =>
    rw [c.windowedProjection_of_hub hprojection hinput] at hraw
    obtain ⟨-, -, hselect, -⟩ := c.parts_of_rawClauses q hraw
    exact c.columns_of_select (r := r.onHub) rfl hselect

end Compiler

/-- A windowed statement over a hub whose projection is a named record over a group with a bucket
has a column for the bucket exactly if it has a result type. Without one, its SELECT list is that of
the record without buckets, under a plan that leaves out all names of buckets. -/
theorem hub_bucket_kept_iff (c : Compiler) (scope : Scope) (q : Query) (r : GroupRecord)
    (target : WindowedTarget) (sql : String) (hprojection : q.projection = some r.projection)
    (hbucket : ∃ m ∈ r.members, isBucketName m.1 = true)
    (hinput : (Compiler.inputName? q target.overrides.input).any c.settings.isHubSource = true)
    (hrun : (c.windowed scope q target (Memo.start none)).1 = .ok sql) :
    ∃ d selection l, c.Composes scope q (.windowed target) (Memo.start none) d ∧
      sql.toList = d.text q ∧
      (Compiler.selection q target.options
        (Memo.start (some (Outline.ofProjection r.onHub.projection true)))).1 = .ok selection ∧
      (c.recordContext q r d.raw.groupBy selection).ofRecord true (some r.typeName)
        r.onHub.members = .ok l ∧
      d.raw.select = selectList l.items ∧
      ((∃ column ∈ l.items, isBucketName column.2 = true) ↔
        target.options.resultType.isSome = true) ∧
      (target.options.resultType = none → ∃ plan, selection = .hub plan ∧
        (∀ name, isBucketName name = true → plan.excludes name = true) ∧
        (c.recordContext q r d.raw.groupBy selection).ofRecord true (some r.typeName)
          r.withoutBuckets.members = .ok l) := by
  obtain ⟨d, hd, htext⟩ := c.composes_of_windowed scope q hrun
  obtain ⟨selection, l, hselection, hcolumns, hselect⟩ :=
    c.columns_of_hub hd hprojection hinput
  refine ⟨d, selection, l, hd, htext, hselection, hcolumns, hselect, ?_⟩
  cases hresult : target.options.resultType with
  | none =>
    obtain ⟨caller, available, -, -, rfl⟩ := Compiler.selection_of_hub rfl hresult hselection
    have hexcluded : ∀ name, isBucketName name →
        ((HubPlan.ofOutline (Outline.ofProjection r.onHub.projection true) available).merge
          caller).excludes name := by
      intro name hname
      rw [HubPlan.excludes_merge, HubPlan.excludes_bucket hbucket available hname, Bool.true_or]
    refine ⟨iff_of_false ?_ (by decide), fun _ => ⟨_, rfl, hexcluded, ?_⟩⟩
    · rintro ⟨column, hcolumn, hname⟩
      have hkept := (ColumnContext.isKept_ofRecord hcolumns).kept column hcolumn
      rw [Compiler.excludes_hub, hexcluded _ hname] at hkept
      cases hkept
    · exact ColumnContext.ofRecord_withoutBuckets hexcluded hcolumns
  | some result =>
    have htyped : selection = .typed result := by
      unfold Compiler.selection at hselection
      rw [hresult] at hselection
      exact (Except.ok.inj hselection).symm
    subst htyped
    refine ⟨iff_of_true ?_ rfl, fun hnone => by cases hnone⟩
    obtain ⟨m, hm, hname⟩ := hbucket
    have hmembers := ColumnContext.addMembers_of_ofRecord hcolumns
    obtain ⟨column, hcolumn, hlabel⟩ := ColumnContext.exists_column_addMembers hmembers
      ColumnContext.isKept_empty (c.excludes_typed _ result) (r.mem_onHub hm hname) rfl
    exact ⟨column, hcolumn, hlabel ▸ hname⟩

/-- A record of a symbol and a bucket over the rows of the symbol. -/
def barRecord : GroupRecord where
  group := ⟨"g", .grouping .string (.record "Rate")⟩
  others := []
  typeName := "Bar"
  members :=
    [("Symbol", .member (.member (.param ⟨"g", .grouping .string (.record "Rate")⟩) "Key"
        .unknown false) "Symbol" .unknown false),
      ("BucketStart", .const (.int 1))]
  isGroup := rfl

/-- A query for those records over a stream of per-second rows. -/
def barRows : Query :=
  Query.Draft.build
    { sources := [{ typeName := "Rate", topic := some "rates_1s_rows" }]
      groupBy := some
        { params := [⟨"r", .unknown⟩]
          body := .member (.param ⟨"r", .unknown⟩) "Symbol" .unknown false }
      projection := some barRecord.projection } 0

/-- The statement of that query over minutes. -/
def barText : String :=
  "CREATE TABLE IF NOT EXISTS w WITH (KAFKA_TOPIC='w', VALUE_FORMAT='AVRO', PARTITIONS=1, " ++
    "REPLICAS=1) AS\nSELECT SYMBOL AS Symbol\nFROM RATES_1S_ROWS WINDOW TUMBLING (SIZE 1 " ++
    "MINUTES)\nGROUP BY Symbol\nEMIT CHANGES;"

/-- The bars have no start: the statement has a column for the symbol only. -/
theorem hub_bucket_dropped_barRows :
    barRows.projection = some barRecord.projection ∧
    (∃ m ∈ barRecord.members, isBucketName m.1 = true) ∧
    (Compiler.inputName? barRows none).any ({} : Compiler).settings.isHubSource = true ∧
    (({} : Compiler).windowed ⟨0⟩ barRows { name := "w", timeframe := "1m" } (Memo.start none)).1 =
      .ok barText ∧
    ∃ d columns, ({} : Compiler).Composes ⟨0⟩ barRows (.windowed { name := "w", timeframe := "1m" })
        (Memo.start none) d ∧
      barText.toList = d.text barRows ∧ d.raw.select = selectList columns ∧
      ∀ column ∈ columns, isBucketName column.2 = false := by
  have hbucket : ∃ m ∈ barRecord.members, isBucketName m.1 :=
    ⟨("BucketStart", .const (.int 1)), mem_cons_of_mem _ mem_cons_self, by decide⟩
  have hinput : (Compiler.inputName? barRows none).any ({} : Compiler).settings.isHubSource =
      true := by decide +kernel
  have hrun : (({} : Compiler).windowed ⟨0⟩ barRows { name := "w", timeframe := "1m" }
      (Memo.start none)).1 = .ok barText := by decide +kernel
  obtain ⟨d, selection, l, hd, htext, -, -, hselect, hiff, -⟩ := hub_bucket_kept_iff {} ⟨0⟩ barRows
    barRecord { name := "w", timeframe := "1m" } barText rfl hbucket hinput hrun
  refine ⟨rfl, hbucket, hinput, hrun, d, l.items, hd, htext, hselect, fun column hcolumn => ?_⟩
  rw [Bool.eq_false_iff]
  intro hname
  exact absurd (hiff.1 ⟨column, hcolumn, hname⟩) (by decide)

end StreamQuery
