import Mathlib.Data.List.Sort
import StreamQuery.Proofs.Rekeying

/-!
# Partition lists in canonical form

A partition list is put in order before it is folded into the grouping keys.  A column is known by
its identifier and its qualifier in capitals (`Partition.pair`): the columns are ordered by these
pairs, and of columns with one pair the earliest is kept.  A pair is looked up by a text of the two
names with `::` between them, which tells pairs apart as long as there are no colons in the names
(`Partition.Item.key_inj`).  The list that comes out is split again, and a column is written in a
way that keeps its pair (`Partition.pair_spelling`).

`Partition.IsCanonical` says which columns a list without colons is left with, and
`Partition.dedup_canonical` that these and no others are.
-/

namespace StreamQuery

open List

/-! ## Separators -/

namespace Text

variable {sep : List Char}

/-- A text is split exactly if the separator stands in it. -/
lemma isSome_splitLast?_iff (hne : sep ≠ []) {s : List Char} :
    (splitLast? sep s).isSome ↔ sep <:+: s := by
  induction s with
  | nil =>
    rw [infix_nil]
    exact iff_of_false Bool.false_ne_true hne
  | cons c s ih =>
    rw [isSome_splitLast?_cons, Bool.or_eq_true, ih, isPrefixOf_iff_prefix, infix_cons_iff, or_comm]

/-- The parts around the last separator make up the text. -/
lemma eq_append_of_splitLast? {s before after : List Char}
    (h : splitLast? sep s = some (before, after)) : s = before ++ (sep ++ after) := by
  induction s generalizing before after with
  | nil => cases h
  | cons c s ih =>
    rw [splitLast?] at h
    split at h
    · next hrest =>
      obtain ⟨rfl, rfl⟩ := Prod.mk.inj (Option.some.inj h)
      rw [cons_append, ← ih hrest]
    · split at h
      · next hstart =>
        obtain ⟨rfl, rfl⟩ := Prod.mk.inj (Option.some.inj h)
        obtain ⟨rest, hrest⟩ := isPrefixOf_iff_prefix.1 hstart
        rw [← hrest, drop_left, nil_append]
      · cases h

lemma afterLast_suffix (sep s : List Char) : afterLast sep s <:+ s := by
  induction s with
  | nil => exact suffix_rfl
  | cons c s ih =>
    rw [afterLast_cons]
    split
    · exact ih.trans (suffix_cons c s)
    · split
      · exact drop_suffix _ _
      · exact suffix_rfl

/-- Behind the last separator there is no other. -/
lemma not_infix_afterLast (hne : sep ≠ []) (s : List Char) : ¬ sep <:+: afterLast sep s := by
  induction s with
  | nil => rwa [afterLast, splitLast?, infix_nil]
  | cons c s ih =>
    rw [afterLast_cons]
    split
    · exact ih
    · next hnone =>
      rw [isSome_splitLast?_iff hne] at hnone
      split
      · -- what is left is an end of the rest
        intro hpart
        have hpos : sep.length = (sep.length - 1) + 1 := by
          have := length_pos_of_ne_nil hne
          omega
        rw [hpos, drop_succ_cons] at hpart
        exact hnone (hpart.trans (drop_suffix _ _).isInfix)
      · next hstart =>
        rw [infix_cons_iff, ← isPrefixOf_iff_prefix]
        exact not_or.2 ⟨hstart, hnone⟩

lemma trim_infix (s : List Char) : trim s <:+: s := by
  obtain ⟨before, after, hs, -⟩ := exists_append_trim s
  exact ⟨before, after, by rw [append_assoc]; exact hs.symm⟩

end Text

namespace Partition

open Text

variable {c : Char} {column list : String} {i : Item}

/-! ## Columns -/

/-- An unqualified column has no separator. -/
lemma not_hasSeparator_unqualified (column : List Char) : ¬ HasSeparator (unqualified column) := by
  have hpart : unqualified column <:+: ending column := by
    rw [unqualified_eq]
    exact trim_infix _
  rw [HasSeparator, isSome_splitLast?_iff (by decide)]
  rintro (hdot | harrow)
  · have hsep : ['.'] <:+: ending column := by
      obtain ⟨before, after, hsplit⟩ := append_of_mem (hpart.subset hdot)
      exact ⟨before, after, by simp [hsplit]⟩
    exact not_infix_afterLast (by decide) _ hsep
  · exact not_infix_afterLast (by decide) _
      ((harrow.trans hpart).trans (afterLast_suffix _ _).isInfix)

/-- A trimmed name without separators has no qualifier. -/
lemma unqualified_of_not_hasSeparator {name : List Char} (hsep : ¬ HasSeparator name)
    (htrim : trim name = name) : unqualified name = name ∧ qualifier name = [] := by
  rw [HasSeparator, not_or, Bool.not_eq_true, Option.isSome_eq_false_iff,
    Option.isNone_iff_eq_none] at hsep
  have hdot : splitLast? ['.'] name = none := splitLast?_eq_none_iff.2 hsep.1
  constructor
  · have harrow : afterLast ['-', '>'] name = name := by rw [afterLast, hsep.2]
    rw [unqualified, htrim, harrow, afterLast, hdot, htrim]
  · rw [qualifier, htrim, hsep.2, hdot]

/-- A qualifier is dropped once. -/
lemma unqualified_unqualified (column : List Char) :
    unqualified (unqualified column) = unqualified column ∧ qualifier (unqualified column) = [] :=
  unqualified_of_not_hasSeparator (not_hasSeparator_unqualified column) (trim_trim _)

/-- Dropping a qualifier brings in no characters. -/
lemma mem_of_mem_unqualified {column : List Char} (h : c ∈ unqualified column) : c ∈ column := by
  rw [unqualified] at h
  exact mem_of_mem_trim (mem_of_mem_afterLast (mem_of_mem_afterLast (mem_of_mem_trim h)))

/-- The names of a column: its identifier, and its qualifier in capitals. -/
def pair (column : String) : String × String :=
  (groupKey column, upper (String.ofList (qualifier column.toList)))

/-- How a column is written: bare without a qualifier, else as it is. -/
def spelling (column : String) : String :=
  if (pair column).2 = "" then String.ofList (unqualified column.toList) else column

/-- A column that is written again has the same names. -/
lemma pair_spelling (column : String) : pair (spelling column) = pair column := by
  unfold spelling
  split
  · next hbare =>
    have hidem := unqualified_unqualified column.toList
    refine Prod.ext ?_ ?_
    · change normalized (unqualified (String.ofList _).toList) = normalized _
      rw [String.toList_ofList, hidem.1]
    · rw [hbare, pair, String.toList_ofList, hidem.2]
      rfl
  · rfl

/-- A spelling is spelled as it is. -/
lemma spelling_spelling (column : String) : spelling (spelling column) = spelling column := by
  have hpair := pair_spelling column
  unfold spelling at hpair ⊢
  split
  · next hbare =>
    rw [if_pos hbare] at hpair
    rw [if_pos (by rw [hpair]; exact hbare), String.toList_ofList,
      (unqualified_unqualified column.toList).1]
  · rfl

lemma mem_of_mem_spelling (h : c ∈ (spelling column).toList) : c ∈ column.toList := by
  unfold spelling at h
  split at h
  · rw [String.toList_ofList] at h
    exact mem_of_mem_unqualified h
  · exact h

/-- A column with an identifier is spelled as a column. -/
lemma isColumn_spelling (h : IsColumn column) (hname : (pair column).1 ≠ "") :
    IsColumn (spelling column) := by
  unfold spelling
  split
  · refine ⟨fun hempty => hname ?_, fun hcomma => h.comma ?_, ?_⟩
    · have hnil : unqualified column.toList = [] := String.ofList_eq_empty_iff.1 hempty
      change normalized (unqualified column.toList) = ""
      rw [hnil]
      decide
    · rw [String.toList_ofList] at hcomma
      exact mem_of_mem_unqualified hcomma
    · rw [Text.trimmed, String.toList_ofList, unqualified, trim_trim]
  · exact h

/-! ## Items -/

namespace Item

variable {a b : Item}

/-- The names of an item. -/
def names (i : Item) : String × String :=
  (i.name, i.qualifier)

/-- An item has the names of its column. -/
lemma names_ofColumn (column : String) : (ofColumn column).names = pair column := rfl

lemma name_ofColumn (column : String) : (ofColumn column).name = (pair column).1 := rfl

/-- An item is written in the spelling of its column. -/
lemma text_ofColumn (column : String) : (ofColumn column).text = spelling column := by
  unfold text spelling
  simp only [beq_iff_eq]
  rfl

/-- Items are ordered by identifier, then by qualifier. -/
lemma le_iff : a.le b ↔ a.name < b.name ∨ a.name = b.name ∧ a.qualifier ≤ b.qualifier := by
  unfold le
  rw [Bool.or_eq_true, Bool.and_eq_true, decide_eq_true_eq, decide_eq_true_eq, beq_iff_eq]

lemma le_trans (a b c : Item) (hab : a.le b) (hbc : b.le c) : a.le c := by
  rw [le_iff] at hab hbc ⊢
  rcases hab with hab | ⟨hab, hab'⟩ <;> rcases hbc with hbc | ⟨hbc, hbc'⟩
  · exact .inl (String.lt_trans hab hbc)
  · exact .inl (hbc ▸ hab)
  · exact .inl (hab ▸ hbc)
  · exact .inr ⟨hab.trans hbc, String.le_trans hab' hbc'⟩

lemma le_total (a b : Item) : (a.le b || b.le a) := by
  rw [Bool.or_eq_true, le_iff, le_iff]
  rcases Std.lt_trichotomy a.name b.name with hlt | heq | hgt
  · exact .inl (.inl hlt)
  · rcases String.le_total a.qualifier b.qualifier with hle | hle
    · exact .inl (.inr ⟨heq, hle⟩)
    · exact .inr (.inr ⟨heq.symm, hle⟩)
  · exact .inr (.inl hgt)

/-- Items with the same names are in either order. -/
lemma le_of_names_eq (h : a.names = b.names) : a.le b := by
  obtain ⟨hname, hqualifier⟩ := Prod.mk.inj h
  exact le_iff.2 (.inr ⟨hname, hqualifier ▸ String.le_refl _⟩)

/-- The order is strict on the names of different items. -/
lemma lex_of_le (h : a.le b) (hne : a.names ≠ b.names) :
    Prod.Lex (· < ·) (· < ·) a.names b.names := by
  rw [Prod.lex_def]
  rcases le_iff.1 h with hlt | ⟨heq, hle⟩
  · exact .inl hlt
  · refine .inr ⟨heq, ?_⟩
    refine lt_of_not_lt_of_ne (String.not_lt.2 hle) fun hqualifier => hne ?_
    exact Prod.ext heq hqualifier.symm

/-- Items with the same names have the same key. -/
lemma key_eq_of_names_eq (h : a.names = b.names) : a.key = b.key := by
  obtain ⟨hname, hqualifier⟩ := Prod.mk.inj h
  rw [key, key, hname, hqualifier]

/-- There is no colon in the names of an item. -/
def NoColon (i : Item) : Prop :=
  ':' ∉ i.name.toList ∧ ':' ∉ i.qualifier.toList

/-- The key of a qualified item has two colons between its names. -/
lemma toList_key_of_qualifier {i : Item} (h : i.qualifier ≠ "") :
    i.key.toList = i.qualifier.toList ++ ':' :: ':' :: i.name.toList := by
  unfold key
  rw [if_neg (by simpa using h), String.toList_append, String.toList_append]
  simp

/-- The key of an unqualified item is its identifier. -/
lemma key_of_no_qualifier {i : Item} (h : i.qualifier = "") : i.key = i.name := by
  rw [key, h]
  rfl

/-- Without colons the key of an item tells its names. -/
lemma key_inj (ha : a.NoColon) (hb : b.NoColon) : a.key = b.key ↔ a.names = b.names := by
  -- the key of an item with a qualifier has a colon, and that of one without has none
  have hmixed : ∀ {i j : Item}, i.NoColon → i.qualifier = "" → j.qualifier ≠ "" →
      i.key ≠ j.key := by
    intro i j hi hnone hsome heq
    rw [key_of_no_qualifier hnone] at heq
    refine hi.1 ?_
    rw [heq, toList_key_of_qualifier hsome]
    simp
  refine ⟨fun h => ?_, key_eq_of_names_eq⟩
  by_cases hqa : a.qualifier = "" <;> by_cases hqb : b.qualifier = ""
  · rw [key_of_no_qualifier hqa, key_of_no_qualifier hqb] at h
    exact Prod.ext h (hqa.trans hqb.symm)
  · exact absurd h (hmixed ha hqa hqb)
  · exact absurd h.symm (hmixed hb hqb hqa)
  · have hlist := congrArg String.toList h
    rw [toList_key_of_qualifier hqa, toList_key_of_qualifier hqb] at hlist
    obtain ⟨hqualifier, hname⟩ := append_mark_inj hlist ha.2 hb.2
    exact Prod.ext (String.toList_inj.1 (List.cons.inj hname).2) (String.toList_inj.1 hqualifier)

end Item

lemma eq_colon_of_toUpper (h : c.toUpper = ':') : c = ':' := by
  have hletters : ∀ n < 128, (Char.ofNat n).toUpper = ':' → Char.ofNat n = ':' := by decide
  by_cases hascii : c.toNat < 128
  · exact ascii_induction (P := fun d => d.toUpper = ':' → d = ':') hletters hascii h
  · have hself : c.toUpper = c := by
      unfold Char.toUpper
      refine dif_neg fun hlower => hascii ?_
      have hhigh : c.toNat ≤ 122 := hlower.2
      omega
    exact hself ▸ h

/-- Capitals bring in no colon. -/
lemma colon_mem_of_upper {s : List Char} (h : ':' ∈ (upper (String.ofList s)).toList) :
    ':' ∈ s := by
  rw [upper, String.toList_ofList, String.toList_ofList] at h
  obtain ⟨c, hc, hupper⟩ := mem_map.1 h
  exact eq_colon_of_toUpper hupper ▸ hc

/-- Taking off a call and quotes brings in no characters. -/
lemma mem_of_mem_unquote_dropCall {name : List Char} (h : c ∈ unquote (dropCall name)) :
    c ∈ name := by
  have hquotes : ∀ s : List Char, c ∈ unquote s → c ∈ s := by
    intro s hs
    unfold unquote at hs
    split at hs
    · split at hs
      · exact mem_cons_of_mem _ (dropLast_subset _ hs)
      · exact hs
    · exact hs
  have hcall := hquotes _ h
  unfold dropCall at hcall
  split at hcall
  · next rest hrest =>
    rw [← mem_reverse, hrest]
    simp [mem_reverse.1 hcall]
  · exact hcall

/-- A qualifier has no characters but those of its column. -/
lemma mem_of_mem_qualifier {column : List Char} (h : c ∈ qualifier column) : c ∈ column := by
  have hleft : ∀ {mark before after}, splitLast? mark (trim column) = some (before, after) →
      c ∈ trim before → c ∈ column := by
    intro mark before after hsplit hmem
    refine mem_of_mem_trim ?_
    rw [eq_append_of_splitLast? hsplit]
    exact mem_append_left _ (mem_of_mem_trim hmem)
  unfold qualifier at h
  split at h
  · exact hleft ‹_› h
  · split at h
    · exact hleft ‹_› h
    · cases h

/-- A column without colons is an item without colons. -/
lemma Item.noColon_ofColumn (h : ':' ∉ column.toList) : (ofColumn column).NoColon := by
  constructor
  · intro hcolon
    have hmem := mem_of_mem_trim (mem_of_mem_unquote_dropCall (colon_mem_of_upper hcolon))
    exact h (mem_of_mem_unqualified hmem)
  · intro hcolon
    exact h (mem_of_mem_qualifier (colon_mem_of_upper hcolon))

/-! ## The items that are kept -/

lemma firsts_sublist (seen : List String) (l : List Item) : (firsts seen l).Sublist l := by
  induction l generalizing seen with
  | nil => exact List.Sublist.refl _
  | cons first rest ih =>
    rw [firsts]
    split
    · exact (ih seen).cons first
    · exact (ih _).cons_cons first

/-- An item is kept exactly if it is the first with its key, and the key is new. -/
lemma mem_firsts_iff {seen : List String} {l : List Item} :
    i ∈ firsts seen l ↔ i.key ∉ seen ∧ l.find? (fun j => j.key == i.key) = some i := by
  induction l generalizing seen with
  | nil => simp [firsts]
  | cons first rest ih =>
    rw [firsts, find?_cons]
    by_cases hkey : first.key = i.key
    · rw [beq_iff_eq.2 hkey, hkey]
      dsimp only
      split
      · next hseen =>
        have hseen : i.key ∈ seen := by simpa using hseen
        rw [ih]
        exact iff_of_false (fun h => h.1 hseen) (fun h => h.1 hseen)
      · next hseen =>
        have hseen : i.key ∉ seen := by simpa using hseen
        rw [mem_cons, ih, and_iff_right hseen, Option.some.injEq]
        constructor
        · rintro (rfl | h)
          · rfl
          · exact absurd mem_cons_self h.1
        · exact fun h => .inl h.symm
    · have hbeq : (first.key == i.key) = false := beq_eq_false_iff_ne.2 hkey
      have hne : i ≠ first := fun h => hkey (congrArg Item.key h.symm)
      rw [hbeq]
      dsimp only
      split
      · exact ih
      · rw [mem_cons, ih, or_iff_right hne, mem_cons, or_iff_right (Ne.symm hkey)]

/-- The items that are kept have different keys. -/
lemma pairwise_key_firsts (seen : List String) (l : List Item) :
    (firsts seen l).Pairwise fun a b => a.key ≠ b.key := by
  induction l generalizing seen with
  | nil => exact List.Pairwise.nil
  | cons first rest ih =>
    rw [firsts]
    split
    · exact ih seen
    · refine pairwise_cons.2 ⟨fun i hi heq => ?_, ih _⟩
      exact (mem_firsts_iff.1 hi).1 (heq ▸ mem_cons_self)

/-- Items with the same names stay in order when sorted. -/
lemma filter_names_mergeSort (l : List Item) (q : String × String) :
    (l.mergeSort Item.le).filter (fun i => i.names = q) = l.filter (fun i => i.names = q) := by
  have hsorted : (l.filter fun i => i.names = q).Pairwise fun a b => a.le b := by
    refine pairwise_of_forall_mem_list fun a ha b hb => Item.le_of_names_eq ?_
    have hqa : a.names = q := by simpa using (mem_filter.1 ha).2
    have hqb : b.names = q := by simpa using (mem_filter.1 hb).2
    rw [hqa, hqb]
  have hsub := (sublist_mergeSort Item.le_trans Item.le_total hsorted
    filter_sublist).filter fun i => i.names = q
  simp only [filter_filter, Bool.and_self] at hsub
  exact (hsub.eq_of_length ((mergeSort_perm l Item.le).filter _).length_eq.symm).symm

/-- The items of a list before repetitions are dropped. -/
def named (list : String) : List Item :=
  ((columns list).map Item.ofColumn).filter (·.name != "")

/-- The named items are those of columns with an identifier. -/
lemma mem_named_iff :
    i ∈ named list ↔ i.name ≠ "" ∧ ∃ column ∈ columns list, i = Item.ofColumn column := by
  rw [named, mem_filter, bne_iff_ne, mem_map, and_comm]
  simp only [eq_comm]

lemma mem_named_of_mem_items (h : i ∈ items list) :
    i.name ≠ "" ∧ ∃ column ∈ columns list, i = Item.ofColumn column :=
  mem_named_iff.1 (mem_mergeSort.1 (mem_of_mem_firsts h))

/-- The names of the items increase strictly. -/
lemma pairwise_items (list : String) :
    ((items list).map Item.names).Pairwise (Prod.Lex (· < ·) (· < ·)) := by
  rw [pairwise_map]
  have hsorted := (pairwise_mergeSort Item.le_trans Item.le_total (named list)).sublist
    (firsts_sublist [] _)
  have hkeys := pairwise_key_firsts [] ((named list).mergeSort Item.le)
  exact (hsorted.and hkeys).imp fun h =>
    Item.lex_of_le h.1 fun hnames => h.2 (Item.key_eq_of_names_eq hnames)

/-- Without colons, an item is kept exactly if it has an identifier and is the earliest with its
names. -/
lemma mem_items_iff (hcolon : ∀ column ∈ columns list, ':' ∉ column.toList) :
    i ∈ items list ↔ i.name ≠ "" ∧
      ∃ column, (columns list).find? (fun c => pair c = i.names) = some column ∧
        i = Item.ofColumn column := by
  -- the keys tell the names apart, and the order leaves the earliest in front
  have hfind : i ∈ named list → ((named list).mergeSort Item.le).find? (fun j => j.key == i.key) =
      (named list).find? fun j => j.names = i.names := by
    intro hi
    have hplain : ∀ j ∈ named list, j.NoColon := by
      intro j hj
      obtain ⟨-, column, hcolumn, rfl⟩ := mem_named_iff.1 hj
      exact Item.noColon_ofColumn (hcolon column hcolumn)
    have hsame : ∀ j ∈ (named list).mergeSort Item.le,
        (j.key == i.key) = decide (j.names = i.names) := by
      intro j hj
      rw [Bool.eq_iff_iff, beq_iff_eq, decide_eq_true_eq]
      exact Item.key_inj (hplain j (mem_mergeSort.1 hj)) (hplain i hi)
    rw [← head?_filter, filter_congr hsame, filter_names_mergeSort, head?_filter]
  have hcolumns : i.name ≠ "" → (named list).find? (fun j => j.names = i.names) =
      ((columns list).find? fun c => pair c = i.names).map Item.ofColumn := by
    intro hname
    have hpairs : (fun j : Item => decide ((j.name != "") ∧
        decide (j.names = i.names))) ∘ Item.ofColumn =
          fun c => decide (pair c = i.names) := by
      funext c
      rw [Function.comp_apply, Bool.eq_iff_iff, decide_eq_true_eq, decide_eq_true_eq,
        decide_eq_true_eq, bne_iff_ne, Item.names_ofColumn, Item.name_ofColumn]
      refine and_iff_right_of_imp fun hc => ?_
      rw [hc]
      exact hname
    rw [named, find?_filter, find?_map, hpairs]
  rw [items, mem_firsts_iff, and_iff_right not_mem_nil]
  constructor
  · intro h
    have hi : i ∈ named list := mem_mergeSort.1 (mem_of_find?_eq_some h)
    have hname := (mem_named_iff.1 hi).1
    have hearliest := (hcolumns hname).symm.trans ((hfind hi).symm.trans h)
    obtain ⟨column, hcolumn, rfl⟩ := Option.map_eq_some_iff.1 hearliest
    exact ⟨hname, column, hcolumn, rfl⟩
  · rintro ⟨hname, column, hcolumn, hi⟩
    have hmem : i ∈ named list :=
      mem_named_iff.2 ⟨hname, column, mem_of_find?_eq_some hcolumn, hi⟩
    refine (hfind hmem).trans ((hcolumns hname).trans ?_)
    rw [hcolumn, Option.map_some, ← hi]

/-- The list in order has the texts of its items as columns. -/
lemma columns_dedup (list : String) : columns (dedup list) = (items list).map Item.text := by
  refine columns_joined_of_isColumn fun part hpart => ?_
  obtain ⟨i, hi, rfl⟩ := mem_map.1 hpart
  obtain ⟨hname, column, hcolumn, rfl⟩ := mem_named_of_mem_items hi
  rw [Item.text_ofColumn]
  exact isColumn_spelling (isColumn_of_mem_columns hcolumn) hname

/-- Its columns joined are the list in order. -/
lemma joined_columns_dedup (list : String) : joined ", " (columns (dedup list)) = dedup list := by
  rw [columns_dedup, dedup]

/-- The columns of the list in order have the names of its items. -/
lemma pairs_dedup (list : String) :
    (columns (dedup list)).map pair = (items list).map Item.names := by
  rw [columns_dedup, map_map]
  refine map_congr_left fun i hi => ?_
  obtain ⟨-, column, -, rfl⟩ := mem_named_of_mem_items hi
  rw [Function.comp_apply, Item.text_ofColumn, pair_spelling, Item.names_ofColumn]

/-! ## Canonical lists -/

/-- The canonical form of columns: strictly increasing in their names, which are those of the
columns with an identifier, each written as the earliest column with its names. -/
structure IsCanonical (columns out : List String) : Prop where
  increasing : (out.map pair).Pairwise (Prod.Lex (· < ·) (· < ·))
  pairs : ∀ q, q ∈ out.map pair ↔ q ∈ columns.map pair ∧ q.1 ≠ ""
  /-- Each column is written as the earliest with its names. -/
  earliest : ∀ column ∈ out, ∃ first,
    columns.find? (fun c => pair c = pair column) = some first ∧ column = spelling first

namespace IsCanonical

variable {columns columns' out out' : List String}

/-- Columns with the same names have canonical forms with the same names. -/
lemma pairs_eq (h : IsCanonical columns out) (h' : IsCanonical columns' out')
    (hsame : ∀ q, q ∈ columns.map pair ↔ q ∈ columns'.map pair) : out.map pair = out'.map pair := by
  refine h.increasing.eq_of_mem_iff h'.increasing fun q => ?_
  rw [h.pairs, h'.pairs, hsame]

/-- A canonical form spells the first column with each of its names. -/
lemma eq_map (h : IsCanonical columns out) :
    out = (out.map pair).map fun q => ((columns.find? fun c => pair c = q).elim "" spelling) := by
  rw [map_map]
  refine (map_id out).symm.trans (map_congr_left fun column hcolumn => ?_)
  obtain ⟨first, hfirst, hspelling⟩ := h.earliest column hcolumn
  rw [id_eq, Function.comp_apply, hfirst, Option.elim_some, ← hspelling]

/-- There is one canonical form. -/
lemma eq (h : IsCanonical columns out) (h' : IsCanonical columns out') : out = out' := by
  rw [h.eq_map, h'.eq_map, h.pairs_eq h' fun _ => Iff.rfl]

/-- A canonical form is its own. -/
lemma self (h : IsCanonical columns out) : IsCanonical out out := by
  refine ⟨h.increasing, fun q => ?_, fun column hcolumn => ?_⟩
  · exact (and_iff_left_of_imp fun hq => ((h.pairs q).1 hq).2).symm
  · have hnodup := h.increasing.nodup
    obtain ⟨first, -, hspelling⟩ := h.earliest column hcolumn
    have hsome : (out.find? fun c => pair c = pair column).isSome :=
      find?_isSome.2 ⟨column, hcolumn, decide_eq_true rfl⟩
    obtain ⟨column', hfind⟩ := Option.isSome_iff_exists.1 hsome
    have hpair : pair column' = pair column := by simpa using find?_some hfind
    obtain rfl : column' = column :=
      inj_on_of_nodup_map hnodup (mem_of_find?_eq_some hfind) hcolumn hpair
    refine ⟨column', hfind, ?_⟩
    rw [hspelling, spelling_spelling]

end IsCanonical

/-- A list without colons is put into canonical form. -/
lemma isCanonical_dedup (hcolon : ∀ column ∈ columns list, ':' ∉ column.toList) :
    IsCanonical (columns list) (columns (dedup list)) := by
  refine ⟨?_, fun q => ?_, fun column hcolumn => ?_⟩
  · rw [pairs_dedup]
    exact pairwise_items list
  · rw [pairs_dedup, mem_map, mem_map]
    constructor
    · rintro ⟨i, hi, rfl⟩
      obtain ⟨hname, column, hcolumn, rfl⟩ := mem_named_of_mem_items hi
      exact ⟨⟨column, hcolumn, rfl⟩, hname⟩
    · rintro ⟨⟨column, hcolumn, rfl⟩, hname⟩
      -- the earliest column with these names is kept
      have hsome : ((columns list).find? fun c => pair c = pair column).isSome :=
        find?_isSome.2 ⟨column, hcolumn, decide_eq_true rfl⟩
      obtain ⟨first, hfirst⟩ := Option.isSome_iff_exists.1 hsome
      have hpair : pair first = pair column := by simpa using find?_some hfirst
      refine ⟨Item.ofColumn first, (mem_items_iff hcolon).2 ⟨?_, first, ?_, rfl⟩, hpair⟩
      · rw [Item.name_ofColumn, hpair]
        exact hname
      · rw [Item.names_ofColumn, hpair]
        exact hfirst
  · rw [columns_dedup] at hcolumn
    obtain ⟨i, hi, rfl⟩ := mem_map.1 hcolumn
    obtain ⟨-, first, hfirst, rfl⟩ := (mem_items_iff hcolon).1 hi
    refine ⟨first, ?_, Item.text_ofColumn first⟩
    rw [Item.text_ofColumn, pair_spelling]
    exact hfirst

/-- Putting a list in order brings in no colons. -/
lemma colon_not_mem_dedup (hcolon : ∀ column ∈ columns list, ':' ∉ column.toList) :
    ∀ column ∈ columns (dedup list), ':' ∉ column.toList := by
  intro column hcolumn
  obtain ⟨first, hfirst, hspelling⟩ := (isCanonical_dedup hcolon).earliest column hcolumn
  rw [hspelling]
  exact fun hmem => hcolon first (mem_of_find?_eq_some hfirst) (mem_of_mem_spelling hmem)

/-- A list without colons is put into the one canonical form of its columns, joined by commas and
blanks. So putting it in order twice is the same as once, and its columns in another order come out
with the same names. -/
theorem dedup_canonical (list : String) (hcolon : ∀ column ∈ columns list, ':' ∉ column.toList) :
    (∀ out, IsCanonical (columns list) out ↔ out = columns (dedup list)) ∧
      joined ", " (columns (dedup list)) = dedup list ∧
      dedup (dedup list) = dedup list ∧
      ∀ other, (columns other).Perm (columns list) →
        (columns (dedup other)).map pair = (columns (dedup list)).map pair := by
  have hcanonical := isCanonical_dedup hcolon
  refine ⟨fun out => ⟨fun h => h.eq hcanonical, fun h => h ▸ hcanonical⟩,
    joined_columns_dedup list, ?_, fun other hperm => ?_⟩
  · have htwice := (isCanonical_dedup (colon_not_mem_dedup hcolon)).eq hcanonical.self
    calc
      dedup (dedup list) = joined ", " (columns (dedup (dedup list))) :=
        (joined_columns_dedup _).symm
      _ = joined ", " (columns (dedup list)) := congrArg (joined ", ") htwice
      _ = dedup list := joined_columns_dedup list
  · have hother : ∀ column ∈ columns other, ':' ∉ column.toList :=
      fun column hcolumn => hcolon column (hperm.mem_iff.1 hcolumn)
    exact (isCanonical_dedup hother).pairs_eq hcanonical fun q => (hperm.map pair).mem_iff

/-- Columns with and without qualifiers come by their names, each once. -/
theorem dedup_canonical_mixed :
    (∀ column ∈ columns "t.b, \x60a\x60, T.B, KEY->A, ->A", ':' ∉ column.toList) ∧
      columns (dedup "t.b, \x60a\x60, T.B, KEY->A, ->A") = ["\x60a\x60", "KEY->A", "t.b"] ∧
      dedup "\x60a\x60, KEY->A, t.b" = "\x60a\x60, KEY->A, t.b" := by
  have hcolumns : columns "t.b, \x60a\x60, T.B, KEY->A, ->A" =
      ["t.b", "\x60a\x60", "T.B", "KEY->A", "->A"] := by decide +kernel
  have hpairs : ["t.b", "\x60a\x60", "T.B", "KEY->A", "->A"].map pair =
      [("B", "T"), ("A", ""), ("B", "T"), ("A", "KEY"), ("A", "")] := by decide +kernel
  have hout : ["\x60a\x60", "KEY->A", "t.b"].map pair = [("A", ""), ("A", "KEY"), ("B", "T")] := by
    decide +kernel
  have hcolon : ∀ column ∈ columns "t.b, \x60a\x60, T.B, KEY->A, ->A", ':' ∉ column.toList := by
    rw [hcolumns]
    decide +kernel
  have hcanonical : IsCanonical ["t.b", "\x60a\x60", "T.B", "KEY->A", "->A"]
      ["\x60a\x60", "KEY->A", "t.b"] := by
    refine ⟨?_, fun q => ?_, ?_⟩
    · rw [hout]
      decide +kernel
    · rw [hout, hpairs]
      simp only [mem_cons, not_mem_nil, or_false]
      constructor
      · rintro (rfl | rfl | rfl) <;> decide
      · rintro ⟨rfl | rfl | rfl | rfl | rfl, -⟩ <;> decide
    · refine forall_mem_cons.2 ⟨⟨"\x60a\x60", ?_⟩, forall_mem_cons.2 ⟨⟨"KEY->A", ?_⟩,
        forall_mem_singleton.2 ⟨"t.b", ?_⟩⟩⟩ <;> decide +kernel
  obtain ⟨hunique, hjoined, htwice, -⟩ := dedup_canonical _ hcolon
  rw [hcolumns] at hunique
  have hlist := (hunique _).1 hcanonical
  have htext : joined ", " ["\x60a\x60", "KEY->A", "t.b"] = "\x60a\x60, KEY->A, t.b" := by
    decide +kernel
  rw [← hlist, htext] at hjoined
  refine ⟨hcolon, hlist.symm, ?_⟩
  rw [hjoined, htwice]

end Partition

end StreamQuery
