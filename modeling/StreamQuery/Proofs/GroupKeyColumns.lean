import Mathlib.Data.List.Forall2
import Mathlib.Data.List.TakeWhile
import StreamQuery.Clause.Columns
import StreamQuery.Clause.GroupKeys
import StreamQuery.Proofs.SplitTexts

/-!
# The grouping key among the output columns

A projection that shows the grouping key itself has one column for each key.  The keys come to it as
the body of the GROUP BY clause, which is split again at its commas (`Text.columns_joined`), so a
key with a comma in it falls apart.  Each part gets the name at its end, and of parts whose names
agree up to case only the first is shown (`distinctNamed`).  `groupKey_columns_iff` says that
nothing else goes wrong.
-/

namespace StreamQuery

open List Text

/-! ## Lists that are joined and split -/

namespace Text

lemma splitOn_append (sep : Char) (s t : List Char) :
    splitOn sep (s ++ sep :: t) = splitOn sep s ++ splitOn sep t := by
  induction s with
  | nil =>
    obtain ⟨part, parts, hparts⟩ := exists_cons_of_ne_nil (splitOn_ne_nil sep t)
    simp [splitOn, hparts]
  | cons c s ih =>
    obtain ⟨part, parts, hparts⟩ := exists_cons_of_ne_nil (splitOn_ne_nil sep s)
    rw [cons_append, splitOn, splitOn, ih, hparts]
    dsimp only [cons_append]
    split <;> rfl

lemma splitOn_of_not_mem {sep : Char} {s : List Char} (h : sep ∉ s) : splitOn sep s = [s] := by
  induction s with
  | nil => rfl
  | cons c s ih =>
    rw [mem_cons, not_or] at h
    have hne : (c == sep) = false := beq_eq_false_iff_ne.2 (Ne.symm h.1)
    simp [splitOn, ih h.2, hne]

lemma trim_cons_of_isBlank {c : Char} (h : isBlank c) (s : List Char) : trim (c :: s) = trim s := by
  rw [trim, trim, trimStart, dropWhile_cons, if_pos h, ← trimStart]

lemma columns_ofList (s : List Char) :
    columns (String.ofList s) =
      ((splitOn ',' s).map fun part => String.ofList (trim part)).filter (· != "") := by
  rw [columns, String.toList_ofList]

lemma columns_append (s t : String) : columns (s ++ ", " ++ t) = columns s ++ columns t := by
  have hchars : s ++ ", " ++ t = String.ofList (s.toList ++ ',' :: ' ' :: t.toList) := by
    apply String.toList_inj.1
    simp
  obtain ⟨part, parts, hparts⟩ := exists_cons_of_ne_nil (splitOn_ne_nil ',' t.toList)
  -- the blank is trimmed off the first part of the second list
  have hblank : splitOn ',' (' ' :: t.toList) = (' ' :: part) :: parts := by
    rw [splitOn, hparts]
    rfl
  rw [hchars, columns_ofList, splitOn_append, hblank, columns, columns, hparts, map_append,
    filter_append, map_cons, map_cons, trim_cons_of_isBlank (by decide)]

/-- The columns of a joined list are those of its members. -/
theorem columns_joined (keys : List String) :
    columns (joined ", " keys) = keys.flatMap columns := by
  induction keys with
  | nil => decide
  | cons key keys ih =>
    cases keys with
    | nil => simp [joined]
    | cons next keys =>
      have hjoined :
          joined ", " (key :: next :: keys) = key ++ ", " ++ joined ", " (next :: keys) :=
        String.intercalate_cons_cons
      rw [hjoined, columns_append, ih]
      rfl

/-- A text that stands in a list as one column. -/
structure IsColumn (s : String) : Prop where
  ne_empty : s ≠ ""
  comma : ',' ∉ s.toList
  trimmed : trimmed s = s

/-- It can be checked whether a text is a column. -/
instance (s : String) : Decidable (IsColumn s) :=
  decidable_of_iff (s ≠ "" ∧ ',' ∉ s.toList ∧ trimmed s = s)
    ⟨fun h => ⟨h.1, h.2.1, h.2.2⟩, fun h => ⟨h.1, h.2, h.3⟩⟩

lemma columns_of_not_mem {s : String} (h : ',' ∉ s.toList) :
    columns s = if trimmed s = "" then [] else [trimmed s] := by
  have hone : columns s = [trimmed s].filter (· != "") := by
    rw [columns, splitOn_of_not_mem h]
    rfl
  rw [hone]
  by_cases hempty : trimmed s = "" <;> simp [hempty]

lemma IsColumn.columns_eq {s : String} (h : IsColumn s) : columns s = [s] := by
  rw [columns_of_not_mem h.comma, h.trimmed, if_neg h.ne_empty]

/-- What is trimmed off is white space, and what is left starts with none. -/
lemma exists_append_trim (s : List Char) : ∃ before after : List Char,
    s = before ++ (trim s ++ after) ∧ (∀ c ∈ before, isBlank c) ∧
      (∀ c ∈ after, isBlank c) ∧ ∀ c ∈ (trim s ++ after).head?, isBlank c = false := by
  have hstart : s.takeWhile isBlank ++ trimStart s = s := takeWhile_append_dropWhile
  have hend : trim s ++ ((trimStart s).reverse.takeWhile isBlank).reverse = trimStart s := by
    rw [trim, trimEnd, ← reverse_append, takeWhile_append_dropWhile, reverse_reverse]
  refine ⟨s.takeWhile isBlank, ((trimStart s).reverse.takeWhile isBlank).reverse, ?_, ?_, ?_, ?_⟩
  · rw [hend, hstart]
  · exact fun c hc => mem_takeWhile_imp hc
  · exact fun c hc => mem_takeWhile_imp (mem_reverse.1 hc)
  · intro c hc
    rw [hend, trimStart] at hc
    have hhead := head?_dropWhile_not isBlank s
    rw [hc] at hhead
    simpa using hhead

end Text

/-! ## Columns of different names -/

/-- Of keys with names alike up to case, the first, if its name is free. -/
def distinctNamed (used : List String) : List String → List String
  | [] => []
  | key :: rest =>
    if used.any fun u => sameName u (keyName key) then distinctNamed used rest
    else key :: distinctNamed (used ++ [keyName key]) rest

/-- Keys whose names differ up to case. -/
def DifferInName (a b : String) : Prop :=
  sameName (keyName a) (keyName b) = false

/-- It can be checked whether the names of two keys differ. -/
instance (a b : String) : Decidable (DifferInName a b) :=
  inferInstanceAs (Decidable (_ = false))

lemma distinctNamed_sublist (used keys : List String) : (distinctNamed used keys).Sublist keys := by
  induction keys generalizing used with
  | nil => exact .slnil
  | cons key keys ih =>
    unfold distinctNamed
    split
    · exact (ih used).cons key
    · exact (ih _).cons_cons key

/-- All keys are shown exactly if their names are different and not taken. -/
lemma distinctNamed_eq_self_iff (used keys : List String) :
    distinctNamed used keys = keys ↔
      (∀ key ∈ keys, ∀ u ∈ used, sameName u (keyName key) = false) ∧
        keys.Pairwise DifferInName := by
  induction keys generalizing used with
  | nil => simp [distinctNamed]
  | cons key keys ih =>
    rw [distinctNamed, pairwise_cons]
    split
    · next htaken =>
      obtain ⟨u, hu, hsame⟩ := any_eq_true.1 htaken
      refine iff_of_false (fun hself => ?_) fun h => ?_
      · have hlength := (distinctNamed_sublist used keys).length_le
        rw [hself, length_cons] at hlength
        omega
      · have hfree := h.1 key mem_cons_self u hu
        rw [hsame] at hfree
        cases hfree
    · next hfree =>
      have hkey : ∀ u ∈ used, sameName u (keyName key) = false := by
        simpa using hfree
      have htaken : (∀ other ∈ keys, ∀ u ∈ used ++ [keyName key],
            sameName u (keyName other) = false) ↔
          (∀ other ∈ keys, ∀ u ∈ used, sameName u (keyName other) = false) ∧
            ∀ other ∈ keys, DifferInName key other := by
        simp only [mem_append, mem_singleton, or_imp, forall_and, forall_eq]
        rfl
      rw [cons.injEq, ih, htaken, forall_mem_cons]
      tauto

namespace ColumnContext

variable {c : ColumnContext}

lemma excludes_eq_false (hhub : c.hub = none) (hexclude : c.exclude = NameSet.empty)
    (name : String) : c.excludes name = false := by
  rw [excludes, hhub, hexclude]
  rfl

/-- The columns of the grouping keys where nothing is left out. -/
lemma addKeys_eq (hall : ∀ name, c.excludes name = false) (l : ColumnList) :
    (c.addKeys l).items = l.items ++
      (distinctNamed l.used (columns (c.groupKeys.getD ""))).map fun key =>
        (key, keyName key) := by
  unfold addKeys keyColumns
  generalize columns (c.groupKeys.getD "") = keys
  induction keys generalizing l with
  | nil => simp [distinctNamed]
  | cons key keys ih =>
    rw [map_cons, foldl_cons, ih]
    simp only [hall, Bool.false_or]
    rw [distinctNamed]
    split
    · rfl
    · simp [ColumnList.add]

/-- The items of a projection that shows the grouping key only. -/
lemma items_groupKey (hall : ∀ name, c.excludes name = false) (params : List Param)
    (typeName : Option String) (name : String) {e : Expr} (he : e.isGroupKey) :
    c.items ⟨params, .record typeName [(name, e)]⟩ =
      .ok ((distinctNamed [] (columns (c.groupKeys.getD ""))).map fun key =>
        columnItem (key, keyName key)) := by
  have horder : c.checkKeyOrder [(name, e)] = .ok () := by
    unfold checkKeyOrder
    rw [if_pos (by simp [he])]
  have hrecord : ∀ grouped, c.ofRecord grouped typeName [(name, e)] = .ok (c.addKeys {}) := by
    intro grouped
    unfold ofRecord
    simp only [addMembers, he, if_true, horder]
    cases typeName.isSome <;> rfl
  have hitems := addKeys_eq hall {}
  change ((c.ofRecord _ typeName [(name, e)]).map fun l => l.items.map columnItem) = _
  rw [hrecord, Except.map, hitems]
  exact congrArg Except.ok (map_map ..)

end ColumnContext

/-! ## Keys and columns -/

/-- The body of a GROUP BY clause is the list of its keys. -/
lemma Lambda.keys_of_groupBody {selector : Lambda} {d : Dialect} {aliases : AliasTable}
    {limit : Nat} {body : String} (h : selector.groupBody d aliases limit = .ok body) :
    ∃ keys, selector.groupKeys d aliases limit = .ok keys ∧ body = joined ", " keys := by
  obtain ⟨keys, hkeys, hbody⟩ := ok_of_bind h
  exact ⟨keys, hkeys, (eq_of_nonEmpty hbody).symm⟩

lemma mem_of_mem_keyName {key : String} {c : Char} (h : c ∈ (keyName key).toList) :
    c ∈ key.toList := by
  have hdrop : ∀ reversed : List Char, (∀ d ∈ reversed, d ∈ key.toList) →
      c ∈ ((reversed.takeWhile fun d => d.isAlphanum || d == '_').reverse.dropWhile Char.isDigit) →
      c ∈ key.toList := by
    intro reversed hsub hmem
    exact hsub c ((takeWhile_sublist _).subset
      (mem_reverse.1 ((dropWhile_sublist _).subset hmem)))
  unfold keyName at h
  dsimp only at h
  split_ifs at h
  · exact h
  · rw [String.toList_ofList] at h
    split at h
    · next rest hreverse =>
      refine hdrop rest (fun d hd => mem_reverse.1 ?_) h
      rw [hreverse]
      exact mem_cons_of_mem _ hd
    · exact hdrop _ (fun d hd => mem_reverse.1 hd) h

lemma comma_not_mem_columnItem {key : String} (h : ',' ∉ key.toList) :
    ',' ∉ (columnItem (key, keyName key)).toList := by
  have hname : ',' ∉ (keyName key).toList := fun hmem => h (mem_of_mem_keyName hmem)
  simp [columnItem, h, hname]

/-- A key that is shown with nothing trimmed off has no white space around it. -/
lemma trimmed_eq_of_item {key label label' : String} (hkey : trimmed key ≠ "")
    (h : columnItem (trimmed key, label) = columnItem (key, label')) : trimmed key = key := by
  obtain ⟨before, after, hparts, hbefore, hafter, hhead⟩ := exists_append_trim key.toList
  have hchars : trim key.toList ++ (" AS ".toList ++ label.toList) =
      before ++ (trim key.toList ++ (after ++ (" AS ".toList ++ label'.toList))) := by
    rw [← append_assoc _ after, ← append_assoc before, ← hparts]
    simpa [columnItem, trimmed] using congrArg String.toList h
  obtain ⟨first, rest, hfirst⟩ : ∃ first rest, trim key.toList = first :: rest :=
    exists_cons_of_ne_nil fun hnil => hkey (by rw [trimmed, hnil])
  -- nothing is trimmed off in front, since the column does not start with white space
  obtain rfl : before = [] := by
    cases before with
    | nil => rfl
    | cons b before =>
      rw [hfirst, cons_append, cons_append] at hchars
      have hblank := hbefore b mem_cons_self
      rw [← (cons.inj hchars).1, hhead first (by rw [hfirst]; rfl)] at hblank
      cases hblank
  -- nor behind, since the blank of the keyword is one and no letter of it is white space
  obtain rfl : after = [] := by
    have hrest := append_cancel_left hchars
    rcases after with _ | ⟨a, _ | ⟨b, after⟩⟩
    · rfl
    · exact absurd (cons.inj (cons.inj hrest).2).1 (by decide)
    · have hblank := hafter b (by simp)
      rw [← (cons.inj (cons.inj hrest).2).1] at hblank
      exact absurd hblank (by decide)
  apply String.toList_inj.1
  rw [trimmed, String.toList_ofList]
  simpa using hparts.symm

lemma flatMap_columns {keys : List String} (h : ∀ key ∈ keys, Text.IsColumn key) :
    keys.flatMap columns = keys := by
  rw [flatMap_congr fun key hkey => (h key hkey).columns_eq]
  simp

/-- The items are the named keys exactly if all are columns of different names. -/
theorem items_are_keys_iff (keys : List String) :
    List.Forall₂ (fun key item => ∃ label, item = columnItem (key, label)) keys
        ((distinctNamed [] (keys.flatMap columns)).map fun key =>
          columnItem (key, keyName key)) ↔
      (∀ key ∈ keys, Text.IsColumn key) ∧ keys.Pairwise DifferInName := by
  constructor
  · intro h
    rw [forall₂_map_right_iff] at h
    have hlength := h.length_eq
    have hsub := distinctNamed_sublist [] (keys.flatMap columns)
    have hcomma : ∀ key ∈ keys, ',' ∉ key.toList := by
      intro key hkey hmem
      obtain ⟨i, hi, rfl⟩ := getElem_of_mem hkey
      obtain ⟨label, hlabel⟩ := h.get hi (hlength ▸ hi)
      obtain ⟨other, -, hother⟩ :=
        mem_flatMap.1 (hsub.subset (getElem_mem (hlength ▸ hi)))
      refine comma_not_mem_columnItem (comma_not_mem_of_mem_columns hother) ?_
      rw [get_eq_getElem, get_eq_getElem] at hlabel
      rw [hlabel]
      simp [columnItem, hmem]
    have hcolumns : keys.flatMap columns = (keys.map trimmed).filter (· != "") := by
      clear h hlength hsub
      induction keys with
      | nil => rfl
      | cons key keys ih =>
        rw [flatMap_cons, ih (forall_mem_cons.1 hcomma).2, map_cons,
          filter_cons, columns_of_not_mem (hcomma key mem_cons_self)]
        by_cases hempty : trimmed key = "" <;> simp [hempty]
    -- as many columns as keys: none is blank, and none is passed over
    have hshown : distinctNamed [] (keys.flatMap columns) = keys.map trimmed := by
      refine (hsub.trans (hcolumns ▸ filter_sublist)).eq_of_length ?_
      rw [← hlength, length_map]
    have hall : (keys.map trimmed).filter (· != "") = keys.map trimmed := by
      refine filter_sublist.eq_of_length_le ?_
      rw [← hcolumns, ← hshown]
      exact hsub.length_le
    have hnonempty : ∀ key ∈ keys, trimmed key ≠ "" := by
      intro key hkey
      simpa using filter_eq_self.1 hall _ (mem_map_of_mem hkey)
    have htrimmed : ∀ key ∈ keys, trimmed key = key := by
      rw [hshown, forall₂_map_right_iff] at h
      intro key hkey
      obtain ⟨label, hlabel⟩ := forall₂_same.1 h key hkey
      exact trimmed_eq_of_item (hnonempty key hkey) hlabel
    refine ⟨fun key hkey => ⟨?_, hcomma key hkey, htrimmed key hkey⟩, ?_⟩
    · exact htrimmed key hkey ▸ hnonempty key hkey
    · have hself : keys.map trimmed = keys := by
        simpa using map_congr_left htrimmed
      rw [hcolumns, hall, hself] at hshown
      exact ((distinctNamed_eq_self_iff [] keys).1 hshown).2
  · rintro ⟨hcolumns, hnames⟩
    rw [flatMap_columns hcolumns, (distinctNamed_eq_self_iff [] keys).2 ⟨by simp, hnames⟩,
      forall₂_map_right_iff, forall₂_same]
    exact fun key _ => ⟨keyName key, rfl⟩

/-! ## The projection of the grouping key -/

/-- A projection to a record whose only member is the key of a group. -/
def keyProjection (params : List Param) (typeName : Option String) (name : String) (group : Param)
    (type : DataType) (isKey : Bool) : Lambda where
  params := params
  body := .record typeName [(name, .member (.param group) "Key" type isKey)]

/-- A list of columns is not blank. -/
lemma nonEmpty_columns {β : Type*} (column : β → String × String) {shown : List β}
    {items : List String} (hitems : items = shown.map fun b => columnItem (column b)) :
    nonEmpty .select (if items.isEmpty then "*" else joined ", " items) =
      .ok (if items.isEmpty then "*" else joined ", " items) := by
  have hkept : ∀ {text : String} {c : Char}, c ∈ text.toList → isBlank c = false →
      nonEmpty .select text = .ok text := by
    intro text c hc hblank
    rw [nonEmpty, allBlank_eq_false hblank hc]
    rfl
  subst hitems
  cases shown with
  | nil => exact hkept (show '*' ∈ "*".toList by decide) (by decide)
  | cons b rest =>
    -- the keyword between a column and its name
    have hmem : 'S' ∈ (columnItem (column b)).toList := by simp [columnItem]
    exact hkept (mem_joined hmem) (by decide)

namespace ColumnContext

variable {c : ColumnContext} (hall : ∀ name, c.excludes name = false) (params : List Param)
  (typeName : Option String) (name : String) {group : Param}
  (hgroup : group.type.isGrouping) (type : DataType) (isKey : Bool)

include hall hgroup

/-- The items of the projection of the grouping key. -/
lemma items_keyProjection :
    c.items (keyProjection params typeName name group type isKey) =
      .ok ((distinctNamed [] (columns (c.groupKeys.getD ""))).map fun key =>
        columnItem (key, keyName key)) :=
  items_groupKey hall params typeName name (by simp [Expr.isGroupKey, Expr.unwrap, hgroup])

/-- The SELECT body of the projection of the grouping key. -/
lemma selectBody_keyProjection {items : List String}
    (hitems : c.items (keyProjection params typeName name group type isKey) = .ok items) :
    c.selectBody (keyProjection params typeName name group type isKey) =
      .ok (if items.isEmpty then "*" else joined ", " items) := by
  have hsize : (keyProjection params typeName name group type isKey).body.checkSize = .ok () := by
    simp [keyProjection, Expr.checkSize, Expr.height, Expr.heightOfMembers, Expr.nodes,
      Expr.nodesOfMembers, maxHeight, maxNodes]
  have hnesting :
      (keyProjection params typeName name group type isKey).body.checkNesting = .ok () := by
    simp [keyProjection, Expr.checkNesting, Expr.anyNode, Expr.nodes, Expr.nodesOfMembers,
      Expr.nestsAggregate]
  have hshown := items_keyProjection hall params typeName name hgroup type isKey
  rw [hitems] at hshown
  unfold selectBody
  simp only [hsize, hnesting, hitems, bind, Except.bind]
  exact nonEmpty_columns _ (Except.ok.inj hshown)

end ColumnContext

/-- The body of an accepted GROUP BY clause is the list of its keys. A projection whose only member
is the key of the group has the keys as its columns, in their order and each with a name, exactly if
every key stands in the list as one column and no two have the same name up to case. -/
theorem groupKey_columns_iff (selector : Lambda) (d : Dialect) (aliases : AliasTable) (limit : Nat)
    (body : String) (hbody : selector.groupBody d aliases limit = .ok body) (c : ColumnContext)
    (hkeys : c.groupKeys = some body) (hhub : c.hub = none) (hexclude : c.exclude = NameSet.empty)
    (params : List Param) (typeName : Option String) (name : String) (group : Param)
    (hgroup : group.type.isGrouping = true) (type : DataType) (isKey : Bool) :
    ∃ keys items, selector.groupKeys d aliases limit = .ok keys ∧ body = Text.joined ", " keys ∧
      c.items (keyProjection params typeName name group type isKey) = .ok items ∧
      c.selectBody (keyProjection params typeName name group type isKey) =
        .ok (if items.isEmpty then "*" else Text.joined ", " items) ∧
      (List.Forall₂ (fun key item => ∃ label, item = key ++ " AS " ++ label) keys items ↔
        (∀ key ∈ keys, Text.IsColumn key) ∧ keys.Pairwise DifferInName) ∧
      ((∀ key ∈ keys, Text.IsColumn key) → keys.Pairwise DifferInName →
        items = keys.map fun key => key ++ " AS " ++ keyName key) := by
  obtain ⟨keys, hok, rfl⟩ := Lambda.keys_of_groupBody hbody
  have hall := ColumnContext.excludes_eq_false hhub hexclude
  have hitems := ColumnContext.items_keyProjection hall params typeName name hgroup type isKey
  rw [hkeys, Option.getD_some, Text.columns_joined] at hitems
  refine ⟨keys, _, hok, rfl, hitems,
    ColumnContext.selectBody_keyProjection hall params typeName name hgroup type isKey hitems,
    items_are_keys_iff keys, fun hcolumns hnames => ?_⟩
  rw [flatMap_columns hcolumns, (distinctNamed_eq_self_iff [] keys).2 ⟨by simp, hnames⟩]
  rfl

/-- A key selector with a coalescence and a column. -/
def venueKeys : Lambda where
  params := [⟨"x", .unknown⟩]
  body := .record none
    [("Venue", .binary .coalesce (.member (.param ⟨"x", .unknown⟩) "Venue" .string false)
        (.member (.param ⟨"x", .unknown⟩) "Desk" .string false)),
      ("Region", .member (.param ⟨"x", .unknown⟩) "Region" .string false)]

/-- The coalescence falls apart: the key of the group has three columns in place of two. -/
theorem groupKey_columns_venueKeys :
    venueKeys.groupBody {} {} 10 = .ok "COALESCE(Venue, Desk), Region" ∧
      ColumnContext.selectBody { groupKeys := some "COALESCE(Venue, Desk), Region" }
          (keyProjection [] none "K" ⟨"g", .grouping .unknown .unknown⟩ .unknown false) =
        .ok "COALESCE(Venue AS Venue, Desk) AS Desk, Region AS Region" ∧
      ∃ keys items, venueKeys.groupKeys {} {} 10 = .ok keys ∧
        ColumnContext.items { groupKeys := some "COALESCE(Venue, Desk), Region" }
          (keyProjection [] none "K" ⟨"g", .grouping .unknown .unknown⟩ .unknown false) =
            .ok items ∧
        ¬ List.Forall₂ (fun key item => ∃ label, item = key ++ " AS " ++ label) keys items := by
  have hbody : venueKeys.groupBody {} {} 10 = .ok "COALESCE(Venue, Desk), Region" := by
    decide +kernel
  have hkeys : venueKeys.groupKeys {} {} 10 = .ok ["COALESCE(Venue, Desk)", "Region"] := by
    decide +kernel
  obtain ⟨keys, items, hok, -, hitems, -, hiff, -⟩ := groupKey_columns_iff venueKeys {} {} 10 _
    hbody { groupKeys := some "COALESCE(Venue, Desk), Region" } rfl rfl rfl [] none "K"
    ⟨"g", .grouping .unknown .unknown⟩ rfl .unknown false
  refine ⟨hbody, by decide +kernel, keys, items, hok, hitems, fun h => ?_⟩
  obtain rfl : keys = ["COALESCE(Venue, Desk)", "Region"] := Except.ok.inj (hok.symm.trans hkeys)
  exact absurd ((hiff.1 h).1 _ mem_cons_self).comma (by decide)

end StreamQuery
