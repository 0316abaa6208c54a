import StreamQuery.Proofs.QuoteLocal
import StreamQuery.Text.Ascii
import StreamQuery.Text.Split

/-!
# Trimmed, split and joined texts

What is neither white space nor a separator survives trimming, splitting and joining: it is in a
trimmed text if it is in the text (`mem_trim`), in a part of the text (`mem_splitOn_iff`), and in a
joined text (`mem_joined`).
-/

namespace StreamQuery.Text

open List

variable {s : List Char} {c : Char}

lemma exists_of_trim_ne_nil (h : trim s ≠ []) : ∃ c ∈ trim s, isBlank c = false := by
  have hend : (trimStart s).reverse.dropWhile isBlank ≠ [] := by
    intro hnil
    refine h ?_
    rw [trim, trimEnd, hnil]
    rfl
  refine ⟨((trimStart s).reverse.dropWhile isBlank).head hend, ?_, ?_⟩
  · rw [trim, trimEnd, mem_reverse]
    exact head_mem hend
  · have hhead := head_dropWhile_not isBlank hend
    simpa using hhead

lemma mem_of_mem_trim (h : c ∈ trim s) : c ∈ s := by
  rw [trim, trimEnd, mem_reverse] at h
  have hstart := mem_reverse.1 ((dropWhile_sublist _).subset h)
  exact (dropWhile_sublist _).subset hstart

/-- Trimming keeps what is not white space. -/
lemma mem_trim (hc : isBlank c = false) (h : c ∈ s) : c ∈ trim s := by
  have hstart : c ∈ trimStart s := mem_dropWhile hc h
  rw [trim, trimEnd, mem_reverse]
  exact mem_dropWhile hc (mem_reverse.2 hstart)

lemma trim_eq_self (h : ∀ c ∈ s, isBlank c = false) : trim s = s := by
  have hself : ∀ z : List Char, (∀ c ∈ z, isBlank c = false) → z.dropWhile isBlank = z := by
    intro z hz
    cases z with
    | nil => rfl
    | cons c z => exact dropWhile_cons_of_neg (Bool.eq_false_iff.1 (hz c mem_cons_self))
  unfold trim trimEnd trimStart
  rw [hself s h, hself s.reverse fun c hc => h c (mem_reverse.1 hc), reverse_reverse]

lemma allBlank_eq_false {s : String} (hc : isBlank c = false) (h : c ∈ s.toList) :
    allBlank s = false := by
  rw [allBlank, beq_eq_false_iff_ne]
  intro htrimmed
  have hnil : trim s.toList = [] := by
    rw [trimmed] at htrimmed
    simpa using congrArg String.toList htrimmed
  exact not_mem_nil (hnil ▸ mem_trim hc h)

/-- The parts of a text have its characters other than the separator. -/
lemma mem_splitOn_iff {sep : Char} : (∃ part ∈ splitOn sep s, c ∈ part) ↔ c ∈ s ∧ c ≠ sep := by
  induction s with
  | nil => simp [splitOn]
  | cons d s ih =>
    rw [splitOn]
    cases hparts : splitOn sep s with
    | nil => exact absurd hparts (splitOn_ne_nil sep s)
    | cons first rest =>
      rw [hparts] at ih
      simp only [mem_cons, exists_eq_or_imp] at ih
      by_cases hd : d = sep
      · -- the character is the separator: it begins a part with nothing in it
        have hbeq : (d == sep) := beq_iff_eq.2 hd
        simp only [hbeq, if_true, mem_cons, exists_eq_or_imp, not_mem_nil, false_or, ih]
        constructor
        · exact fun h => ⟨.inr h.1, h.2⟩
        · rintro ⟨rfl | h, hne⟩
          · exact absurd hd hne
          · exact ⟨h, hne⟩
      · have hbeq : (d == sep) = false := beq_eq_false_iff_ne.2 hd
        simp only [hbeq, Bool.false_eq_true, if_false, mem_cons, exists_eq_or_imp]
        rw [or_assoc, ih]
        constructor
        · rintro (rfl | h)
          · exact ⟨.inl rfl, hd⟩
          · exact ⟨.inr h.1, h.2⟩
        · rintro ⟨rfl | h, hne⟩
          · exact .inl rfl
          · exact .inr ⟨h, hne⟩

/-- A character of a column: no white space and no comma. -/
def IsColumnChar (c : Char) : Prop :=
  isBlank c = false ∧ c ≠ ','

lemma columns_ne_nil {clause : String} (hc : IsColumnChar c) (h : c ∈ clause.toList) :
    columns clause ≠ [] := by
  obtain ⟨part, hpart, hmem⟩ := mem_splitOn_iff.2 ⟨h, hc.2⟩
  have htrim := mem_trim hc.1 hmem
  refine ne_nil_of_mem (a := String.ofList (trim part)) ?_
  refine mem_filter.2 ⟨mem_map.2 ⟨part, hpart, rfl⟩, bne_iff_ne.2 fun hempty => ?_⟩
  have hnil : trim part = [] := by simpa using congrArg String.toList hempty
  rw [hnil] at htrim
  cases htrim

lemma comma_not_mem_of_mem_columns {clause column : String} (h : column ∈ columns clause) :
    ',' ∉ column.toList := by
  obtain ⟨part, hpart, rfl⟩ := mem_map.1 (mem_filter.1 h).1
  rw [String.toList_ofList]
  exact fun hmem => (mem_splitOn_iff.1 ⟨part, hpart, mem_of_mem_trim hmem⟩).2 rfl

lemma mem_of_mem_splitLast? {sep before after : List Char}
    (h : splitLast? sep s = some (before, after)) (hc : c ∈ after) : c ∈ s := by
  induction s generalizing before after with
  | nil => cases h
  | cons d s ih =>
    rw [splitLast?] at h
    split at h
    · next before' after' hrest =>
      cases h
      exact mem_cons_of_mem _ (ih hrest hc)
    · split at h
      · cases h
        exact mem_of_mem_drop hc
      · cases h

lemma mem_of_mem_afterLast {sep : List Char} (h : c ∈ afterLast sep s) : c ∈ s := by
  unfold afterLast at h
  split at h
  · next before after hsome => exact mem_of_mem_splitLast? hsome h
  · exact h

/-- The first text of a joined list is in it. -/
lemma mem_joined {sep t : String} {ts : List String} (h : c ∈ t.toList) :
    c ∈ (joined sep (t :: ts)).toList := by
  cases ts with
  | nil => simpa [joined] using h
  | cons u ts =>
    have hcons : joined sep (t :: u :: ts) = t ++ sep ++ joined sep (u :: ts) :=
      String.intercalate_cons_cons
    rw [hcons]
    simp [h]

end StreamQuery.Text
