import Mathlib.Data.List.Infix
import StreamQuery.Proofs.AliasesAtOnce
import StreamQuery.Proofs.GroupKeyColumns

/-!
# Columns that keep a name

A column is compared by its identifier, which is what stands behind its last full stop and its last
arrow.  The edits of a list put texts with full stops and arrows into a column, so the identifier
may become another one.  It does not get lost (`Partition.HasName.substitute`): what an edit writes
ends in a word, and either the identifier is made of what stands behind the written text, which
stays, or that word is part of it.
-/

namespace StreamQuery

open List hiding splitOn splitOn_ne_nil

/-! ## Behind the last separator -/

namespace Text

variable {sep : List Char}

/-- A separator is in the rest of a text, or at its start. -/
lemma isSome_splitLast?_cons (c : Char) (s : List Char) :
    (splitLast? sep (c :: s)).isSome = ((splitLast? sep s).isSome || sep.isPrefixOf (c :: s)) := by
  rw [splitLast?]
  cases splitLast? sep s with
  | some parts => rfl
  | none => cases sep.isPrefixOf (c :: s) <;> simp

/-- What stands behind the last separator, character by character. -/
lemma afterLast_cons (c : Char) (s : List Char) :
    afterLast sep (c :: s) =
      if (splitLast? sep s).isSome then afterLast sep s
      else if sep.isPrefixOf (c :: s) then (c :: s).drop sep.length else c :: s := by
  unfold afterLast
  rw [splitLast?]
  cases splitLast? sep s with
  | some parts => rfl
  | none => cases sep.isPrefixOf (c :: s) <;> simp

lemma afterLast_of_none {s : List Char} (h : (splitLast? sep s).isSome = false) :
    afterLast sep s = s := by
  unfold afterLast
  rw [Option.not_isSome_iff_eq_none.1 (Bool.eq_false_iff.1 h)]

/-- What stands before a text with a separator is cut off. -/
lemma afterLast_append_of_isSome {v : List Char} (h : (splitLast? sep v).isSome) (a : List Char) :
    (splitLast? sep (a ++ v)).isSome ∧ afterLast sep (a ++ v) = afterLast sep v := by
  induction a with
  | nil => exact ⟨h, rfl⟩
  | cons c a ih =>
    rw [cons_append, isSome_splitLast?_cons, afterLast_cons, ih.1]
    exact ⟨rfl, ih.2⟩

/-- A text without a separator stays whole, if none reaches into it. -/
lemma exists_afterLast_append {v : List Char} (h : (splitLast? sep v).isSome = false)
    (hhead : ∀ c ∈ v.head?, c ∉ sep.tail) (a : List Char) :
    ∃ a', afterLast sep (a ++ v) = a' ++ v := by
  induction a with
  | nil => exact ⟨[], afterLast_of_none h⟩
  | cons c a ih =>
    rw [cons_append, afterLast_cons]
    split
    · exact ih
    · split
      · next hstart =>
        -- the separator ends before the text does
        have hlength : sep.length ≤ (c :: a).length := by
          by_contra hlong
          have hwhole : sep <+: (c :: a) ++ v := isPrefixOf_iff_prefix.1 hstart
          obtain ⟨t, rfl⟩ := prefix_of_prefix_length_le (prefix_append (c :: a) v) hwhole
            (by omega)
          obtain ⟨d, t, rfl⟩ : ∃ d t', t = d :: t' := by
            refine exists_cons_of_ne_nil ?_
            rintro rfl
            simp at hlong
          obtain ⟨rest, rfl⟩ := (prefix_append_right_inj (c :: a)).1 hwhole
          exact hhead d rfl (by simp)
        exact ⟨(c :: a).drop sep.length, by
          rw [← cons_append, drop_append_of_le_length hlength]⟩
      · exact ⟨c :: a, rfl⟩

lemma trim_concat_of_isBlank {b : Char} (h : isBlank b) (s : List Char) :
    trim (s ++ [b]) = trim s := by
  have hend : ∀ t : List Char, trimEnd (t ++ [b]) = trimEnd t := by
    intro t
    rw [trimEnd, trimEnd, reverse_append, reverse_singleton, singleton_append,
      dropWhile_cons, if_pos h]
  rw [trim, trim, trimStart, trimStart, dropWhile_append]
  split
  · next hnil =>
    rw [isEmpty_iff.1 hnil, dropWhile_cons, if_pos h]
    rfl
  · exact hend _

section

variable (hsep : ∀ c ∈ sep, isBlank c = false) (hne : sep ≠ [])

include hsep hne

/-- White space in front of a text is trimmed, also where the text is cut. -/
lemma trim_afterLast_append {blanks : List Char} (hblanks : ∀ c ∈ blanks, isBlank c)
    (s : List Char) : trim (afterLast sep (blanks ++ s)) = trim (afterLast sep s) := by
  induction blanks with
  | nil => rfl
  | cons b blanks ih =>
    obtain ⟨hb, hblanks⟩ := forall_mem_cons.1 hblanks
    have ih := ih hblanks
    obtain ⟨p, ps, rfl⟩ := exists_cons_of_ne_nil hne
    have hstart : (p :: ps).isPrefixOf (b :: (blanks ++ s)) = false := by
      have hp : (p == b) = false := by
        rw [beq_eq_false_iff_ne]
        rintro rfl
        rw [hsep p mem_cons_self] at hb
        cases hb
      rw [isPrefixOf, hp, Bool.false_and]
    rw [cons_append, afterLast_cons]
    split
    · exact ih
    · next hnone =>
      rw [hstart, if_neg Bool.false_ne_true, trim_cons_of_isBlank hb, ← ih,
        afterLast_of_none (Bool.eq_false_iff.2 hnone)]

/-- White space behind a text stays behind it where the text is cut. -/
lemma afterLast_concat {b : Char} (hb : isBlank b) (s : List Char) :
    (splitLast? sep (s ++ [b])).isSome = (splitLast? sep s).isSome ∧
      afterLast sep (s ++ [b]) = afterLast sep s ++ [b] := by
  have hfresh : b ∉ sep := fun hmem => by
    rw [hsep b hmem] at hb
    cases hb
  have hstart : ∀ t : List Char, sep.isPrefixOf (t ++ [b]) = sep.isPrefixOf t := by
    intro t
    rw [Bool.eq_iff_iff, isPrefixOf_iff_prefix, isPrefixOf_iff_prefix,
      prefix_concat_iff]
    exact or_iff_right fun heq => hfresh (heq ▸ by simp)
  have hnil : sep.isPrefixOf [] = false := by
    obtain ⟨p, ps, rfl⟩ := exists_cons_of_ne_nil hne
    rfl
  induction s with
  | nil =>
    have hone : sep.isPrefixOf [b] = false := (hstart []).trans hnil
    rw [nil_append, isSome_splitLast?_cons, afterLast_cons, hone]
    exact ⟨rfl, rfl⟩
  | cons c s ih =>
    have hcons := hstart (c :: s)
    rw [cons_append] at hcons
    rw [cons_append, isSome_splitLast?_cons, isSome_splitLast?_cons, afterLast_cons,
      afterLast_cons, ih.1, ih.2, hcons]
    refine ⟨rfl, ?_⟩
    split
    · rfl
    · split
      · next hprefix =>
        have hlength := (List.isPrefixOf_iff_prefix.1 hprefix).length_le
        rw [← cons_append, drop_append_of_le_length hlength]
      · rfl

lemma trim_afterLast_trim (s : List Char) :
    trim (afterLast sep (trim s)) = trim (afterLast sep s) := by
  obtain ⟨before, after, hs, hbefore, hafter, -⟩ := exists_append_trim s
  have hright : trim (afterLast sep (trim s ++ after)) = trim (afterLast sep (trim s)) := by
    clear hs
    induction after using reverseRecOn with
    | nil => rw [append_nil]
    | append_singleton after b ih =>
      have hb : isBlank b := hafter b (by simp)
      rw [← append_assoc, (afterLast_concat hsep hne hb _).2, trim_concat_of_isBlank hb]
      exact ih fun c hc => hafter c (mem_append_left _ hc)
  conv_rhs => rw [hs]
  rw [trim_afterLast_append hsep hne hbefore, hright]

end

end Text

/-! ## Columns with an identifier -/

namespace Partition

open Text

variable {column v m : List Char} {c : Char} {f : Form}

/-- The arrow of a key path. -/
abbrev arrow : List Char :=
  ['-', '>']

/-- What stands behind the last arrow and the last full stop after it. -/
def ending (column : List Char) : List Char :=
  afterLast ['.'] (afterLast arrow column)

/-- A column has an identifier. -/
def IsNamed (column : List Char) : Prop :=
  normalized (unqualified column) ≠ ""

/-- The unqualified column is its ending, trimmed. -/
lemma unqualified_eq (column : List Char) : unqualified column = trim (ending column) := by
  have hdot : ∀ s, trim (afterLast ['.'] (trim s)) = trim (afterLast ['.'] s) :=
    trim_afterLast_trim (forall_mem_singleton.2 rfl) (by decide)
  have harrow : ∀ s, trim (afterLast arrow (trim s)) = trim (afterLast arrow s) :=
    trim_afterLast_trim (forall_mem_cons.2 ⟨rfl, forall_mem_singleton.2 rfl⟩) (by decide)
  rw [unqualified, ← hdot, harrow, hdot, ending]

lemma isNamed_congr {column' : List Char} (h : ending column = ending column') :
    IsNamed column ↔ IsNamed column' := by
  rw [IsNamed, IsNamed, unqualified_eq, unqualified_eq, h]

lemma mem_dropCall {name : List Char} (hc : isWord c) (h : c ∈ name) : c ∈ dropCall name := by
  unfold dropCall
  split
  · next rest hrest =>
    rw [← mem_reverse, hrest] at h
    rcases mem_cons.1 h with rfl | h
    · exact absurd hc (by decide)
    · rcases mem_cons.1 h with rfl | h
      · exact absurd hc (by decide)
      · exact mem_reverse.2 h
  · exact h

lemma mem_unquote {name : List Char} (hc : isWord c) (h : c ∈ name) : c ∈ unquote name := by
  unfold unquote
  split
  · next first rest =>
    split
    · next hquoted =>
      simp only [Bool.and_eq_true, Bool.or_eq_true, beq_iff_eq] at hquoted
      have hfirst : isWord first = false := by
        rcases hquoted.1 with rfl | rfl <;> decide
      have hne : c ≠ first := by
        rintro rfl
        rw [hc] at hfirst
        cases hfirst
      rw [← dropLast_append_getLast? first hquoted.2] at h
      simpa [hne] using h
    · exact h
  · exact h

/-- A word character in its ending gives a column an identifier. -/
lemma isNamed_of_mem (hc : isWord c) (h : c ∈ ending column) : IsNamed column := by
  have hblank : isBlank c = false := Placement.isBlank_of_isWord hc
  rw [IsNamed, unqualified_eq]
  intro hempty
  have hmem := mem_unquote hc (mem_dropCall hc (mem_trim hblank (mem_trim hblank h)))
  have hletters := congrArg String.toList hempty
  rw [normalized, upper, String.toList_ofList, String.toList_ofList] at hletters
  rw [map_eq_nil_iff.1 hletters] at hmem
  cases hmem

/-- A text has a separator of qualifiers in it. -/
def HasSeparator (s : List Char) : Prop :=
  '.' ∈ s ∨ (splitLast? arrow s).isSome = true

/-- A separator behind makes the ending. -/
lemma ending_append (h : HasSeparator v) (a : List Char) : ending (a ++ v) = ending v := by
  cases harrow : (splitLast? arrow v).isSome with
  | true => rw [ending, (afterLast_append_of_isSome harrow a).2, ending]
  | false =>
    have hdot : '.' ∈ v.reverse := by
      rw [HasSeparator, harrow] at h
      simpa using h
    -- the last full stop is behind all arrows
    obtain ⟨s, p, hv, hs⟩ := eq_append_cons_of_mem hdot
    have hsplit : v = p.reverse ++ '.' :: s.reverse := by
      simpa using congrArg reverse hv
    have hnone : (splitLast? arrow ('.' :: s.reverse)).isSome = false := by
      rw [← Bool.not_eq_true]
      intro hsome
      rw [hsplit, (afterLast_append_of_isSome hsome _).1] at harrow
      cases harrow
    have hending : ∀ b, ending (b ++ '.' :: s.reverse) = s.reverse := by
      intro b
      obtain ⟨b', hb'⟩ := exists_afterLast_append hnone (by simp) b
      rw [ending, hb', (afterLast_qualified (by simpa using hs) b').2]
    rw [hsplit, ← append_assoc, hending, hending]

/-- A text without a separator stays whole in the ending. -/
lemma exists_ending_append (h : ¬ HasSeparator v) (hhead : v.head? ≠ some '>') (a : List Char) :
    ∃ a', ending (a ++ v) = a' ++ v := by
  rw [HasSeparator, not_or, Bool.not_eq_true] at h
  have hdot : (splitLast? ['.'] v).isSome = false := by
    rw [splitLast?_eq_none_iff.2 h.1]
    rfl
  have harrow : ∀ c ∈ v.head?, c ∉ arrow.tail := by
    intro c hc hmem
    rw [mem_singleton.1 hmem] at hc
    exact hhead hc
  obtain ⟨b, hb⟩ := exists_afterLast_append h.2 harrow a
  rw [ending, hb]
  exact exists_afterLast_append hdot (by simp) b

lemma not_hasSeparator_append {back : List Char} (hback : ∀ c ∈ back, c ≠ '.' ∧ c ≠ '-' ∧ c ≠ '>')
    (hv : ¬ HasSeparator v) : ¬ HasSeparator (back ++ v) := by
  induction back with
  | nil => exact hv
  | cons c back ih =>
    obtain ⟨⟨hdot, hdash, -⟩, hback⟩ := forall_mem_cons.1 hback
    have hstart : arrow.isPrefixOf (c :: (back ++ v)) = false := by
      rw [isPrefixOf, beq_eq_false_iff_ne.2 (Ne.symm hdash), Bool.false_and]
    have ih := ih hback
    rw [HasSeparator, not_or] at ih ⊢
    rw [cons_append, isSome_splitLast?_cons, hstart, Bool.or_false, mem_cons, not_or]
    exact ⟨⟨Ne.symm hdot, ih.1⟩, ih.2⟩

/-- A text ends in a word, perhaps quoted, with no separator behind it. -/
def EndsInWord (w : List Char) : Prop :=
  ∃ front back, w = front ++ back ∧ (∀ c ∈ back, c ≠ '.' ∧ c ≠ '-' ∧ c ≠ '>') ∧
    ∃ c ∈ back, isWord c = true

/-- A column stays named if a word is written into it. -/
lemma IsNamed.replace {u w : List Char} (h : IsNamed (u ++ m ++ v)) (hw : EndsInWord w) :
    IsNamed (u ++ w ++ v) := by
  by_cases hsep : HasSeparator v
  · rwa [isNamed_congr ((ending_append hsep _).trans (ending_append hsep _).symm)]
  · -- the word belongs to the ending, which nothing behind it cuts off
    obtain ⟨front, back, rfl, hback, c, hc, hword⟩ := hw
    have hhead : (back ++ v).head? ≠ some '>' := by
      obtain ⟨d, back, rfl⟩ := exists_cons_of_ne_nil (ne_nil_of_mem hc)
      simpa using (hback d mem_cons_self).2.2
    obtain ⟨a, ha⟩ := exists_ending_append (not_hasSeparator_append hback hsep) hhead (u ++ front)
    have hsplit : u ++ (front ++ back) ++ v = u ++ front ++ (back ++ v) := by simp
    refine isNamed_of_mem hword ?_
    rw [hsplit, ha]
    simp [hc]

/-! ## Lists of columns -/

/-- Some column of a list has an identifier. -/
def HasName (clause : List Char) : Prop :=
  ∃ part ∈ splitOn ',' clause, IsNamed part

/-- A list has identifiers exactly if it has a named column. -/
lemma identifiers_ne_nil_iff {clause : String} :
    identifiers clause ≠ [] ↔ HasName clause.toList := by
  have hkey : ∀ part : List Char, groupKey (String.ofList (trim part)) ≠ "" ↔ IsNamed part := by
    intro part
    rw [groupKey, String.toList_ofList, unqualified_eq]
    exact Iff.rfl
  have hempty : ∀ part : List Char, IsNamed part → String.ofList (trim part) ≠ "" := by
    intro part hnamed hnil
    rw [← hkey, hnil] at hnamed
    exact hnamed (by decide)
  have hmem : ∀ name, name ∈ identifiers clause ↔
      ∃ part ∈ splitOn ',' clause.toList, IsNamed part ∧
        groupKey (String.ofList (trim part)) = name := by
    intro name
    simp only [identifiers, columns, mem_filter, mem_map, bne_iff_ne]
    constructor
    · rintro ⟨⟨_, ⟨⟨part, hpart, rfl⟩, -⟩, rfl⟩, hnamed⟩
      exact ⟨part, hpart, (hkey part).1 hnamed, rfl⟩
    · rintro ⟨part, hpart, hnamed, rfl⟩
      exact ⟨⟨_, ⟨⟨part, hpart, rfl⟩, hempty part hnamed⟩, rfl⟩, (hkey part).2 hnamed⟩
  constructor
  · intro h
    obtain ⟨name, hname⟩ := exists_mem_of_ne_nil _ h
    obtain ⟨part, hpart, hnamed, -⟩ := (hmem name).1 hname
    exact ⟨part, hpart, hnamed⟩
  · rintro ⟨part, hpart, hnamed⟩
    exact ne_nil_of_mem ((hmem _).2 ⟨part, hpart, hnamed, rfl⟩)

/-- A text without commas is part of one column of the list around it. -/
lemma exists_splitOn_splice (u v : List Char) :
    ∃ (before : List (List Char)) (front back : List Char) (after : List (List Char)),
      ∀ m : List Char, ',' ∉ m →
        splitOn ',' (u ++ m ++ v) = before ++ (front ++ m ++ back) :: after := by
  induction u with
  | nil =>
    obtain ⟨back, after, hv⟩ := exists_cons_of_ne_nil (splitOn_ne_nil ',' v)
    refine ⟨[], [], back, after, fun m hm => ?_⟩
    induction m with
    | nil => exact hv
    | cons c m ih =>
      obtain ⟨hc, hm⟩ := not_or.1 (mt mem_cons.2 hm)
      have ih : splitOn ',' (m ++ v) = (m ++ back) :: after := ih hm
      have hne : (c == ',') = false := beq_eq_false_iff_ne.2 (Ne.symm hc)
      change splitOn ',' (c :: (m ++ v)) = (c :: (m ++ back)) :: after
      rw [splitOn, ih]
      simp [hne]
  | cons c u ih =>
    obtain ⟨before, front, back, after, hsplit⟩ := ih
    by_cases hc : c = ','
    · refine ⟨[] :: before, front, back, after, fun m hm => ?_⟩
      rw [cons_append, cons_append, splitOn, hsplit m hm]
      cases before <;> simp [hc]
    · cases before with
      | nil =>
        refine ⟨[], c :: front, back, after, fun m hm => ?_⟩
        rw [cons_append, cons_append, splitOn, hsplit m hm]
        simp [hc]
      | cons first before =>
        refine ⟨(c :: first) :: before, front, back, after, fun m hm => ?_⟩
        rw [cons_append, cons_append, splitOn, hsplit m hm]
        simp [hc]

/-- A list keeps a name if a word is written into it. -/
lemma HasName.replace {u w : List Char} (h : HasName (u ++ m ++ v)) (hm : ',' ∉ m)
    (hcomma : ',' ∉ w) (hw : EndsInWord w) : HasName (u ++ w ++ v) := by
  obtain ⟨before, front, back, after, hsplit⟩ := exists_splitOn_splice u v
  obtain ⟨part, hpart, hnamed⟩ := h
  rw [HasName, hsplit w hcomma]
  rw [hsplit m hm] at hpart
  simp only [mem_append, mem_cons] at hpart ⊢
  rcases hpart with hpart | rfl | hpart
  · exact ⟨part, .inl hpart, hnamed⟩
  · exact ⟨_, .inr (.inl rfl), hnamed.replace hw⟩
  · exact ⟨part, .inr (.inr hpart), hnamed⟩

/-! ## Edits of lists -/

/-- A rule leaves a text or writes one without commas that ends in a word. -/
def WritesWords (rule : Rule) : Prop :=
  ∀ before rest taken written, rule before rest = some (taken, written) →
    ∃ m after, rest = m ++ after ∧ m ≠ [] ∧ taken = m.length ∧
      (written = m ∨ ',' ∉ m ∧ ',' ∉ written ∧ EndsInWord written)

/-- A list keeps a column with an identifier under a rule that writes words. -/
lemma HasName.substitute {rule : Rule} (hrule : WritesWords rule) {s : List Char}
    (h : HasName s) : HasName (substitute rule s) := by
  suffices hrest : ∀ (n : Nat) (done before rest : List Char), rest.length = n →
      HasName (done ++ rest) → HasName (done ++ substituteFrom rule 0 before rest) from
    hrest _ [] [] s rfl h
  -- by induction on what is still to be read, for everything that has been written
  intro n
  induction n using Nat.strong_induction_on with
  | _ n ih =>
    intro done before rest hn hnamed
    cases hfound : rule before rest with
    | none =>
      cases rest with
      | nil =>
        rw [substituteFrom, hfound]
        exact hnamed
      | cons c rest =>
        rw [substituteFrom_kept hfound]
        have hkept := ih rest.length (by rw [← hn]; simp) (done ++ [c]) (c :: before) rest rfl
          (by simpa using hnamed)
        simpa using hkept
    | some answer =>
      obtain ⟨taken, written⟩ := answer
      obtain ⟨m, after, rfl, hne, rfl, hwritten⟩ := hrule before rest taken written hfound
      rw [substituteFrom_taken hne hfound]
      have hedited : HasName (done ++ written ++ after) := by
        rw [← append_assoc] at hnamed
        rcases hwritten with rfl | ⟨hm, hcomma, hword⟩
        · exact hnamed
        · exact hnamed.replace hm hcomma hword
      have hshort : after.length < n := by
        have hpos := length_pos_iff.2 hne
        rw [← hn, length_append]
        omega
      have hgoes := ih after.length hshort (done ++ written) (m.reverse ++ before) after rfl hedited
      rwa [append_assoc] at hgoes

lemma comma_notMem_of_sameFolded {word : List Char} (h : SameFolded m word) (hword : ',' ∉ word) :
    ',' ∉ m := by
  intro hm
  have hmem : fold ',' ∈ word.map fold := by
    rw [← (h : m.map fold = word.map fold)]
    exact mem_map_of_mem hm
  obtain ⟨k, hk, hfold⟩ := mem_map.1 hmem
  rw [eq_of_fold_sign (by decide) (by decide) (by decide) hfold] at hk
  exact hword hk

/-- A rule for whole words writes words. -/
lemma writesWords_wordRule {word written : List Char} (accept : List Char → List Char → Bool)
    (hne : word ≠ []) (hword : ',' ∉ word) (hcomma : ',' ∉ written) (hends : EndsInWord written) :
    WritesWords (wordRule word written accept) := by
  intro before rest taken text h
  unfold wordRule at h
  obtain ⟨after, hafter, h⟩ := Option.map_eq_some_iff.1 h
  have hdrop : dropFolded? word rest = some after := by
    unfold afterWord? at hafter
    split at hafter
    · exact (Option.filter_eq_some_iff.1 hafter).1
    · cases hafter
  obtain ⟨m, rfl, hm⟩ := dropFolded?_eq_some_iff.1 hdrop
  obtain ⟨rfl, htext⟩ := Prod.mk.inj h
  refine ⟨m, after, rfl, ?_, hm.length_eq.symm, ?_⟩
  · rintro rfl
    exact hne (eq_nil_of_length_eq_zero hm.length_eq.symm)
  · rw [← htext, ← hm.length_eq, take_left]
    split
    · exact .inr ⟨comma_notMem_of_sameFolded hm hword, hcomma, hends⟩
    · exact .inl rfl

open AliasScope

lemma mem_write (hc : c ∈ column) : c ∈ f.write column := by
  unfold Form.write
  split
  · simp [hc]
  · exact hc

/-- There is no separator in a written column. -/
lemma plain_of_mem_write (hf : f ∈ clauseForms) (hcolumn : ∀ c ∈ column, isNameChar c)
    (hc : c ∈ f.write column) : c ≠ ',' ∧ c ≠ '.' ∧ c ≠ '-' ∧ c ≠ '>' := by
  have hname : c ∈ column → c ≠ ',' ∧ c ≠ '.' ∧ c ≠ '-' ∧ c ≠ '>' := by
    intro hmem
    have hword := isWord_of_isNameChar (hcolumn c hmem)
    refine ⟨?_, ?_, ?_, ?_⟩ <;> rintro rfl <;> exact absurd hword (by decide)
  have hmark : c = '\x60' ∨ c = '"' → c ≠ ',' ∧ c ≠ '.' ∧ c ≠ '-' ∧ c ≠ '>' := by
    rintro (rfl | rfl) <;> decide
  obtain ⟨-, -, ⟨hquote, -⟩ | ⟨q, hquote, hq⟩⟩ := clauseForms_spec hf
  · rw [Form.write, hquote] at hc
    exact hname hc
  · rw [Form.write, hquote] at hc
    simp only [cons_append, mem_cons, mem_append, not_mem_nil, or_false] at hc
    rcases hc with rfl | hc | rfl
    · exact hmark hq
    · exact hname hc
    · exact hmark hq

/-- The rule that drops a short alias writes words. -/
lemma writesWords_referenceRule {aliasName : String} {a : Char} (halias : IsShort aliasName a)
    (hf : f ∈ clauseForms) : WritesWords (referenceRule aliasName.toList f f.write) := by
  intro before rest taken text h
  obtain ⟨column, hcolumn, hanswer⟩ := Option.map_eq_some_iff.1 h
  obtain ⟨ref, after, rfl, href⟩ := (reference?_eq_some_iff halias hf).1 hcolumn
  obtain ⟨rfl, rfl⟩ := Prod.mk.inj hanswer
  have hplain := fun c => plain_of_mem_write hf href.holds (c := c)
  refine ⟨ref, after, rfl, href.ne_nil, href.length_eq, .inr ⟨?_, ?_, ?_⟩⟩
  · obtain ⟨m, rfl, hm⟩ := href.text
    have hshort : ',' ∉ aliasName.toList := by
      rw [halias.toList]
      rcases halias.letter with rfl | rfl <;> decide
    rw [mem_append, mem_cons]
    rintro (hcomma | hcomma | hcomma)
    · exact comma_notMem_of_sameFolded hm hshort hcomma
    · exact absurd hcomma (by decide)
    · exact (hplain ',' hcomma).1 rfl
  · exact fun hcomma => (hplain ',' hcomma).1 rfl
  · obtain ⟨c, hc⟩ := exists_mem_of_ne_nil _ href.column_ne
    exact ⟨[], f.write column, rfl, fun c hc => (hplain c hc).2, c, mem_write hc,
      isWord_of_isNameChar (href.holds c hc)⟩

/-- Where an only alias is dropped, a list keeps a column with an identifier. -/
lemma HasName.dropFromClause {scope : AliasScope} {a : Char} (hscope : IsShort scope.aliasName a)
    {clause : String} (h : HasName clause.toList) :
    HasName (dropFromClause [scope] clause).toList := by
  have hforms : ∀ forms : List Form, (∀ f ∈ forms, f ∈ clauseForms) → ∀ text : List Char,
      HasName text → HasName (forms.foldl (fun text f =>
        Text.substitute (referenceRule scope.aliasName.toList f f.write) text) text) := by
    intro forms
    induction forms with
    | nil => exact fun _ text htext => htext
    | cons f forms ih =>
      intro hmem text htext
      obtain ⟨hf, hmem⟩ := forall_mem_cons.1 hmem
      exact ih hmem _ (htext.substitute (writesWords_referenceRule hscope hf))
  unfold AliasScope.dropFromClause
  simp only [foldl_cons, foldl_nil, writeColumn_single, String.toList_ofList]
  exact hforms clauseForms (fun f hf => hf) _ h

/-! ## Key paths in lists -/

/-- A name without commas that ends in a word, and so ends a column. -/
structure IsLastName (name : String) : Prop where
  comma : ',' ∉ name.toList
  word : startsWord name.toList.reverse = true

/-- It can be checked whether a name makes the end of a column. -/
instance (name : String) : Decidable (IsLastName name) :=
  decidable_of_iff (',' ∉ name.toList ∧ startsWord name.toList.reverse = true)
    ⟨fun h => ⟨h.1, h.2⟩, fun h => ⟨h.1, h.2⟩⟩

lemma IsLastName.ne_nil {name : String} (h : IsLastName name) : name.toList ≠ [] := by
  intro hnil
  have hword := h.word
  rw [hnil] at hword
  cases hword

lemma IsLastName.endsInWord {name : String} (h : IsLastName name) (front : List Char) :
    EndsInWord (front ++ name.toList) := by
  obtain ⟨c, rest, hrest⟩ := exists_cons_of_ne_nil (reverse_ne_nil_iff.2 h.ne_nil)
  have hword : isWord c := by
    have hword := h.word
    rw [hrest] at hword
    exact hword
  have hname : name.toList = rest.reverse ++ [c] := by
    simpa using congrArg reverse hrest
  refine ⟨front ++ rest.reverse, [c], by simp [hname], ?_, c, mem_singleton_self c, hword⟩
  rw [forall_mem_singleton]
  refine ⟨?_, ?_, ?_⟩ <;> rintro rfl <;> exact absurd hword (by decide)

section

variable {b : KeyBinding} {key : String}

lemma IsLastName.path (h : IsLastName key) (b : KeyBinding) :
    ',' ∉ (b.path key).toList ∧ EndsInWord (b.path key).toList := by
  have hlead : ',' ∉ b.style.lead.toList := by
    cases b.style <;> decide
  rw [KeyBinding.path, String.toList_append]
  refine ⟨?_, h.endsInWord _⟩
  rw [mem_append, not_or]
  exact ⟨hlead, h.comma⟩

/-- Writing a key path keeps a name. -/
lemma HasName.styleKey (halias : ',' ∉ b.aliasName.toList) (hkey : IsLastName key) {s : List Char}
    (h : HasName s) : HasName (b.styleKey s key) := by
  obtain ⟨hcomma, hends⟩ := hkey.path b
  refine h.substitute ?_
  split
  · exact writesWords_wordRule _ hkey.ne_nil hkey.comma hcomma hends
  · refine writesWords_wordRule _ ?_ ?_ hcomma hends
    · simp
    · have hdot : ',' ∉ ".".toList := by decide
      simp only [String.toList_append, mem_append, not_or]
      exact ⟨⟨halias, hdot⟩, hkey.comma⟩

/-- Writing all key paths keeps a name. -/
lemma HasName.applyKeys (halias : ',' ∉ b.aliasName.toList) (hkeys : ∀ key ∈ b.keys, IsLastName key)
    {s : List Char} (h : HasName s) : HasName (b.apply s) := by
  have hfold : ∀ keys : List String, (∀ key ∈ keys, IsLastName key) → ∀ text, HasName text →
      HasName (keys.foldl b.styleKey text) := by
    intro keys
    induction keys with
    | nil => exact fun _ text htext => htext
    | cons key keys ih =>
      intro hkeys text htext
      obtain ⟨hkey, hkeys⟩ := forall_mem_cons.1 hkeys
      exact ih hkeys _ (htext.styleKey halias hkey)
  unfold KeyBinding.apply
  split
  · exact h
  · refine hfold b.keys hkeys _ ?_
    split
    · next lone hlone =>
      obtain ⟨hcomma, hends⟩ := (hkeys lone (by rw [hlone]; simp)).path b
      exact h.substitute (writesWords_wordRule _ (by decide) (by decide) hcomma hends)
    · exact h

end

end Partition

end StreamQuery
