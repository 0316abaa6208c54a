import StreamQuery.Proofs.WholeWords

/-!
# Identifiers

A column goes by the identifier spelling of its name, which is made of capitals, digits and
underscores.  Such a text has no point and no bracket in it, so it can be told from an alias in
front of it and from what follows.
-/

namespace StreamQuery

open List

namespace Text

/-- A text of capitals that is not empty. -/
def isIdentifier (s : String) : Bool :=
  s != "" && s.toList.all isCapital

lemma ne_empty_of_isIdentifier {s : String} (h : isIdentifier s) : s ≠ "" := by
  rw [isIdentifier, Bool.and_eq_true, bne_iff_ne] at h
  exact h.1

lemma isCapital_of_isIdentifier {s : String} (h : isIdentifier s) :
    ∀ c ∈ s.toList, isCapital c := by
  rw [isIdentifier, Bool.and_eq_true] at h
  exact all_eq_true.1 h.2

lemma isIdentifier_append {s t : String} (hs : isIdentifier s) (ht : isIdentifier t) :
    isIdentifier (s ++ t) := by
  rw [isIdentifier, Bool.and_eq_true, bne_iff_ne, String.toList_append, all_append,
    Bool.and_eq_true]
  rw [isIdentifier, Bool.and_eq_true, bne_iff_ne] at hs ht
  exact ⟨fun h => hs.1 (String.append_eq_empty_iff.1 h).1, hs.2, ht.2⟩

variable (name : String) {c : Char} {s : List Char}

lemma isCapital_identifier : ∀ c ∈ (identifier name).toList, isCapital c := by
  have hascii : ∀ n < 0x80, isNamePart (Char.ofNat n) →
      isCapital (Char.ofNat n).toUpper := by decide
  intro c hc
  rw [identifier, String.toList_ofList] at hc
  obtain ⟨d, -, rfl⟩ := mem_map.1 hc
  split
  · next hd =>
    exact ascii_induction (P := fun d => isNamePart d → isCapital d.toUpper) hascii
      (isNamePart_ascii hd) hd
  · rfl

@[simp] lemma length_identifier : (identifier name).toList.length = name.toList.length := by
  rw [identifier, String.toList_ofList, length_map]

lemma isIdentifier_identifier {name : String} (h : name ≠ "") : isIdentifier (identifier name) := by
  have hne : identifier name ≠ "" := by
    intro heq
    have hnil := congrArg String.toList heq
    rw [identifier, String.toList_ofList, String.toList_empty, map_eq_nil_iff] at hnil
    exact h (String.toList_eq_nil_iff.1 hnil)
  simp [isIdentifier, hne, all_eq_true.2 (isCapital_identifier name)]

lemma isCapital_apart (h : isCapital c) :
    isBlank c = false ∧ c ≠ '.' ∧ c ≠ ')' ∧ c.toUpper = c := by
  have hascii : ∀ n < 0x80, isCapital (Char.ofNat n) →
      isBlank (Char.ofNat n) = false ∧ Char.ofNat n ≠ '.' ∧ Char.ofNat n ≠ ')' ∧
        (Char.ofNat n).toUpper = Char.ofNat n := by decide
  exact ascii_induction (P := fun c => isCapital c →
    isBlank c = false ∧ c ≠ '.' ∧ c ≠ ')' ∧ c.toUpper = c) hascii
    (isNamePart_ascii (isNamePart_of_isCapital h)) h

/-- The identifier spelling is its own identifier spelling. -/
@[simp] lemma identifier_identifier : identifier (identifier name) = identifier name := by
  have hkept : ∀ c ∈ (identifier name).toList,
      (if c.isAlphanum || c == '_' then c.toUpper else '_') = c := by
    intro c hc
    have hcapital := isCapital_identifier name c hc
    have hpart : c.isAlphanum || c == '_' := isNamePart_of_isCapital hcapital
    rw [if_pos hpart, (isCapital_apart hcapital).2.2.2]
  apply String.toList_inj.1
  rw [identifier, String.toList_ofList, map_congr_left hkept, map_id']

lemma not_mem_of_isIdentifier {s : String} (h : isIdentifier s) :
    '.' ∉ s.toList ∧ ')' ∉ s.toList := by
  have hcapital := isCapital_of_isIdentifier h
  exact ⟨fun hmem => (isCapital_apart (hcapital _ hmem)).2.1 rfl,
    fun hmem => (isCapital_apart (hcapital _ hmem)).2.2.1 rfl⟩

lemma nonBlank_of_isIdentifier {s : String} (h : isIdentifier s) : nonBlank s = some s := by
  have hcapital := isCapital_of_isIdentifier h
  have hkeep : ∀ l : List Char, (∀ c ∈ l, isCapital c) → l.dropWhile isBlank = l := by
    intro l hl
    cases l with
    | nil => rfl
    | cons c l =>
      rw [dropWhile_cons, (isCapital_apart (hl c mem_cons_self)).1]
      rfl
  have htrim : trimmed s = s := by
    rw [trimmed, trim, trimEnd, trimStart, hkeep _ hcapital,
      hkeep _ fun c hc => hcapital c (by simpa using hc), reverse_reverse,
      String.ofList_toList]
  simp [nonBlank, allBlank, htrim, ne_empty_of_isIdentifier h]

/-- Only a text without the character is not split at it. -/
lemma splitLast?_eq_none_iff : splitLast? [c] s = none ↔ c ∉ s := by
  induction s with
  | nil => simp [splitLast?]
  | cons d s ih =>
    cases hs : splitLast? [c] s with
    | none => simp [splitLast?, hs, ih.1 hs]
    | some parts =>
      have hmem : c ∈ s := by
        by_contra hnot
        rw [ih.2 hnot] at hs
        cases hs
      simp [splitLast?, hs, hmem]

/-- The last point in front of a text without one is where the text is split. -/
lemma splitLast?_qualified (h : c ∉ s) (qualifier : List Char) :
    splitLast? [c] (qualifier ++ c :: s) = some (qualifier, s) := by
  induction qualifier with
  | nil => simp [splitLast?, splitLast?_eq_none_iff.2 h]
  | cons d qualifier ih => simp [splitLast?, ih]

/-- Behind any qualifier, a text without a point is what follows the last one. -/
lemma afterLast_qualified (h : c ∉ s) (qualifier : List Char) :
    afterLast [c] s = s ∧ afterLast [c] (qualifier ++ c :: s) = s :=
  ⟨by rw [afterLast, splitLast?_eq_none_iff.2 h], by rw [afterLast, splitLast?_qualified h]⟩

/-- A text is split into two shorter ones. -/
lemma length_of_splitLast? {before after : List Char}
    (h : splitLast? [c] s = some (before, after)) : after.length < s.length := by
  induction s generalizing before with
  | nil => cases h
  | cons d s ih =>
    rw [splitLast?] at h
    split at h
    · next hs =>
      cases h
      exact Nat.lt_succ_of_lt (ih hs)
    · split_ifs at h
      cases h
      simp

end Text

end StreamQuery
