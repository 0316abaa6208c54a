import StreamQuery.Proofs.WindowKept

/-!
# What the window start edits find

The window starts of a hopping statement are taken out by three substitutions, each with a scanner
that says what is found at a position.  A find has a weight that is more than that of the text
written for it (`Consumes`), so a substitution keeps a part of a text if nothing is found there, and
makes it lighter otherwise (`substitute_part`).  The letter T counts three times, which makes up for
the end of the window that is written.

A scanner does not go beyond a character that is neither white space nor part of a word (`HaltsAt`).
A column that is the window start is found where it begins, and nothing is found inside of it
(`StartColumn`).
-/

namespace StreamQuery.WindowStart

open Text List
open Placement (fromLine isName)

/-! ## Weights -/

/-- The weight of a text: a T counts three times, any other character once. -/
def weight (s : List Char) : Nat :=
  s.length + 2 * s.countP fun c => fold c == 't'

/-- Weights of parts add up. -/
@[simp]
lemma weight_append (s t : List Char) : weight (s ++ t) = weight s + weight t := by
  simp only [weight, length_append, countP_append]
  omega

/-- A text weighs its length at least. -/
lemma length_le_weight (s : List Char) : s.length ≤ weight s :=
  Nat.le_add_right ..

lemma ne_nil_of_weight {s : List Char} (h : 0 < weight s) : s ≠ [] := by
  rintro rfl
  exact absurd h (by decide)

/-- Texts that agree up to case have the same weight. -/
lemma weight_of_sameFolded {s t : List Char} (h : SameFolded s t) : weight s = weight t := by
  have hfold : ∀ u : List Char,
      u.countP (fun c => fold c == 't') = (u.map fold).countP (· == 't') := by
    intro u
    rw [countP_map]
    rfl
  rw [weight, weight, hfold, hfold, h.length_eq, h]

/-- A text that is kept under a condition, and gets lighter by at least `loss` otherwise. -/
def KeptOrLighter (loss : Nat) (kept : Prop) (after before : List Char) : Prop :=
  kept ∧ after = before ∨ ¬ kept ∧ weight after + loss ≤ weight before

namespace KeptOrLighter

variable {loss : Nat} {p p' : Prop} {s s' s'' t t' : List Char}

/-- What is kept or lighter is not heavier. -/
lemma weight_le (h : KeptOrLighter loss p s' s) : weight s' ≤ weight s := by
  rcases h with ⟨-, rfl⟩ | ⟨-, hlighter⟩
  · exact le_rfl
  · omega

/-- With a positive loss, the text is kept exactly if `p` holds. -/
lemma eq_iff (h : KeptOrLighter loss p s' s) (hloss : 0 < loss) : s' = s ↔ p := by
  rcases h with ⟨hp, rfl⟩ | ⟨hp, hlighter⟩
  · exact iff_of_true rfl hp
  · refine iff_of_false (fun heq => ?_) hp
    rw [heq] at hlighter
    omega

lemma congr (h : KeptOrLighter loss p s' s) (hp : p ↔ p') : KeptOrLighter loss p' s' s := by
  rwa [← propext hp]

/-- Parts are kept or get lighter one by one. -/
lemma append (h : KeptOrLighter loss p s' s) (h' : KeptOrLighter loss p' t' t) :
    KeptOrLighter loss (p ∧ p') (s' ++ t') (s ++ t) := by
  have hs := h.weight_le
  have ht := h'.weight_le
  rcases h with ⟨hp, rfl⟩ | ⟨hp, hlighter⟩
  · rcases h' with ⟨hp', rfl⟩ | ⟨hp', hlighter⟩
    · exact .inl ⟨⟨hp, hp'⟩, rfl⟩
    · refine .inr ⟨fun hboth => hp' hboth.2, ?_⟩
      rw [weight_append, weight_append]
      omega
  · refine .inr ⟨fun hboth => hp hboth.1, ?_⟩
    rw [weight_append, weight_append]
    omega

lemma append_left (h : KeptOrLighter loss p s' s) (t : List Char) :
    KeptOrLighter loss p (t ++ s') (t ++ s) :=
  (append (.inl ⟨trivial, rfl⟩) h).congr (iff_of_eq (true_and p))

lemma append_right (h : KeptOrLighter loss p s' s) (t : List Char) :
    KeptOrLighter loss p (s' ++ t) (s ++ t) :=
  (h.append (.inl ⟨trivial, rfl⟩)).congr (iff_of_eq (and_true p))

/-- One edit after another keeps a text or makes it lighter. -/
lemma trans (h : KeptOrLighter loss p s' s) {p'' : Prop} (h' : KeptOrLighter loss p' s'' s')
    (hcond : s' = s → (p' ↔ p'')) : KeptOrLighter loss (p ∧ p'') s'' s := by
  have hle := h'.weight_le
  rcases h with ⟨hp, heq⟩ | ⟨hp, hlighter⟩
  · rw [heq] at h'
    exact (h'.congr (hcond heq)).imp (fun hkept => ⟨⟨hp, hkept.1⟩, hkept.2⟩)
      fun hnot => ⟨fun hboth => hnot.1 hboth.2, hnot.2⟩
  · refine .inr ⟨fun hboth => hp hboth.1, ?_⟩
    omega

end KeptOrLighter

/-! ## Finds -/

/-- Nothing is found in a part of a text, with what follows it. -/
def Calm (scan : List Char → Option (List Char)) (part rest : List Char) : Prop :=
  ∀ z, z <:+ part → z ≠ [] → scan (z ++ rest) = none

/-- What a scanner finds is a text of at least a given weight, at the position. -/
def Consumes (n : Nat) (scan : List Char → Option (List Char)) : Prop :=
  ∀ s after, scan s = some after → ∃ found, s = found ++ after ∧ n ≤ weight found

section

variable {scan scan' : List Char → Option (List Char)} {written : String} {n m loss : Nat}

lemma Consumes.mono (h : Consumes n scan) (hle : m ≤ n) : Consumes m scan := by
  intro s after hfound
  obtain ⟨found, hs, hweight⟩ := h s after hfound
  exact ⟨found, hs, hle.trans hweight⟩

lemma Consumes.nil (h : Consumes n scan) (hn : 0 < n) : scan [] = none := by
  cases hfound : scan [] with
  | none => rfl
  | some after =>
    obtain ⟨found, hsplit, hweight⟩ := h [] after hfound
    have hne := ne_nil_of_weight (hn.trans_le hweight)
    exact absurd (append_eq_nil_iff.1 hsplit.symm).1 hne

/-- What two scanners find in a row has both weights. -/
lemma Consumes.bind (h : Consumes n scan) (h' : Consumes m scan') :
    Consumes (n + m) fun s => (scan s).bind scan' := by
  intro s after hfound
  obtain ⟨u, hu, hafter⟩ := Option.bind_eq_some_iff.1 hfound
  obtain ⟨found, rfl, hweight⟩ := h s u hu
  obtain ⟨found', rfl, hweight'⟩ := h' u after hafter
  refine ⟨found ++ found', (append_assoc ..).symm, ?_⟩
  rw [weight_append]
  omega

/-- An optional find in front takes no weight away. -/
lemma Consumes.getD (h : Consumes n scan) (h' : Consumes m scan') :
    Consumes m fun s => scan' ((scan s).getD s) := by
  intro s after hfound
  dsimp only at hfound
  cases hs : scan s with
  | none =>
    rw [hs] at hfound
    exact h' s after hfound
  | some u =>
    rw [hs] at hfound
    obtain ⟨found, rfl, -⟩ := h s u hs
    obtain ⟨found', rfl, hweight⟩ := h' u after hfound
    refine ⟨found ++ found', (append_assoc ..).symm, ?_⟩
    rw [weight_append]
    omega

lemma Consumes.filter (h : Consumes n scan) (p : List Char → Bool) :
    Consumes n fun s => (scan s).filter p :=
  fun s after hfound => h s after (Option.filter_eq_some_iff.1 hfound).1

/-- A find is replaced, and the substitution goes on behind it. -/
lemma substitute_found (hscan : Consumes n scan) (hn : 0 < n) {s after : List Char}
    (h : scan s = some after) : substitute (scanRule scan written) s =
      written.toList ++ substitute (scanRule scan written) after := by
  obtain ⟨found, rfl, hweight⟩ := hscan s after h
  have hne := ne_nil_of_weight (hn.trans_le hweight)
  have hrule : scanRule scan written [] (found ++ after) = some (found.length, written.toList) := by
    rw [scanRule, h, Option.map_some, length_append, Nat.add_sub_cancel]
  rw [substitute, substituteFrom_taken hne hrule]
  exact congrArg _ (substituteFrom_before ..)

/-- A part of a text is kept if nothing is found there, and gets lighter otherwise, if no find in it
reaches into what follows. -/
lemma substitute_part (hscan : Consumes (weight written.toList + loss) scan) (hloss : 0 < loss)
    {part rest : List Char}
    (hstop : ∀ z after, z <:+ part → z ≠ [] → scan (z ++ rest) = some after → rest <:+ after) :
    ∃ part', substitute (scanRule scan written) (part ++ rest) =
        part' ++ substitute (scanRule scan written) rest ∧
      KeptOrLighter loss (Calm scan part rest) part' part := by
  induction hlength : part.length using Nat.strong_induction_on generalizing part with
  | _ n ih =>
  cases part with
  | nil => exact ⟨[], rfl, .inl ⟨fun z hz hne => absurd (suffix_nil.1 hz) hne, rfl⟩⟩
  | cons c part =>
    rw [length_cons] at hlength
    cases hfound : scan (c :: part ++ rest) with
    | none =>
      obtain ⟨part', htext, hkept⟩ := ih part.length (by omega)
        (fun z after hz => hstop z after (hz.trans (suffix_cons ..))) rfl
      refine ⟨c :: part', ?_, (hkept.append_left [c]).congr ⟨fun hcalm => ?_, fun hcalm => ?_⟩⟩
      · rw [cons_append] at hfound
        rw [cons_append, substitute, substituteFrom_unfound hfound, htext]
        rfl
      · intro z hz hne
        rcases suffix_cons_iff.1 hz with rfl | hz
        · exact hfound
        · exact hcalm z hz hne
      · exact fun z hz => hcalm z (hz.trans (suffix_cons ..))
    | some after =>
      -- the find ends within the part, and the rest of the part is shorter
      obtain ⟨later, rfl⟩ :=
        hstop (c :: part) after suffix_rfl (cons_ne_nil c part) hfound
      obtain ⟨found, hsplit, hweight⟩ := hscan _ _ hfound
      rw [← append_assoc] at hsplit
      have hpart : c :: part = found ++ later := append_cancel_right hsplit
      have hshort : later.length < n := by
        have hparts := congrArg length hpart
        have hpos := length_pos_iff.2 (ne_nil_of_weight (s := found) (by omega))
        rw [length_cons, length_append] at hparts
        omega
      obtain ⟨later', htext, hkept⟩ := ih later.length hshort
        (fun z after hz => hstop z after (hz.trans ⟨found, hpart.symm⟩)) rfl
      refine ⟨written.toList ++ later', ?_, .inr ⟨fun hcalm => ?_, ?_⟩⟩
      · rw [substitute_found hscan (by omega) hfound, htext, append_assoc]
      · rw [hcalm _ suffix_rfl (cons_ne_nil c part)] at hfound
        cases hfound
      · have hle := hkept.weight_le
        rw [hpart, weight_append, weight_append]
        omega

/-- A text is kept if nothing is found in it, and gets lighter otherwise. -/
lemma substitute_keptOrLighter (hscan : Consumes (weight written.toList + loss) scan)
    (hloss : 0 < loss) (s : List Char) :
    KeptOrLighter loss (Calm scan s []) (substitute (scanRule scan written) s) s := by
  have hnil : substitute (scanRule scan written) [] = [] := by
    have hrule : scanRule scan written [] [] = none := by
      rw [scanRule, hscan.nil (by omega)]
      rfl
    rw [substitute, substituteFrom, hrule]
  have hstop : ∀ z after, z <:+ s → z ≠ [] → scan (z ++ []) = some after → [] <:+ after :=
    fun _ _ _ _ _ => nil_suffix
  obtain ⟨s', htext, hkept⟩ := substitute_part hscan hloss hstop
  rw [append_nil, hnil, append_nil] at htext
  rwa [htext]

/-- A scanner does not go beyond a character. -/
def HaltsAt (c : Char) (scan : List Char → Option (List Char)) : Prop :=
  ∀ u rest, scan (u ++ c :: rest) = (scan u).map (· ++ c :: rest)

variable {c : Char}

/-- Two scanners in a row do not go beyond the character. -/
lemma HaltsAt.bind (h : HaltsAt c scan) (h' : HaltsAt c scan') :
    HaltsAt c fun s => (scan s).bind scan' := by
  intro u rest
  dsimp only
  rw [h u rest]
  cases scan u with
  | none => rfl
  | some v => exact h' v rest

lemma HaltsAt.getD (h : HaltsAt c scan) (h' : HaltsAt c scan') :
    HaltsAt c fun s => scan' ((scan s).getD s) := by
  intro u rest
  dsimp only
  rw [h u rest]
  cases scan u with
  | none => exact h' u rest
  | some v => exact h' v rest

/-- A text is edited on both sides of such a character. -/
lemma HaltsAt.substitute_append (h : HaltsAt c scan) (hnil : scan [] = none)
    (front rest : List Char) : substitute (scanRule scan written) (front ++ c :: rest) =
      substitute (scanRule scan written) front ++ substitute (scanRule scan written) (c :: rest) :=
  WindowStart.substitute_append hnil fun y _ _ => h y rest

end

/-! ## The scanners -/

/-- What follows a window start and its name. -/
def afterStart? (s : List Char) : Option (List Char) := do
  let s ← afterGap? (← dropFolded? "WINDOWSTART".toList s)
  let s ← afterGap? (← dropFolded? "AS".toList s)
  afterName? s

/-- A column ends behind its window start and a comma. -/
lemma afterColumn?_eq (s : List Char) : afterColumn? s = (afterStart? s).map afterComma := by
  unfold afterColumn? afterStart?
  simp only [Option.bind_eq_bind, Option.pure_def, Option.map_eq_bind, Option.bind_assoc]
  rfl

lemma afterGap?_consumes : Consumes 1 afterGap? := by
  intro s after hfound
  unfold afterGap? at hfound
  split at hfound
  · next hblank =>
    cases hfound
    refine ⟨s.takeWhile isBlank, takeWhile_append_dropWhile.symm, ?_⟩
    cases s with
    | nil => cases hblank
    | cons c s =>
      refine le_trans ?_ (length_le_weight _)
      have hc : isBlank c := hblank
      rw [takeWhile_cons_of_pos hc, length_cons]
      omega
  · cases hfound

lemma afterName?_consumes : Consumes 0 afterName? := by
  intro s after hfound
  unfold afterName? at hfound
  split at hfound
  · cases hfound
    exact ⟨s.takeWhile isWord, takeWhile_append_dropWhile.symm, Nat.zero_le _⟩
  · cases hfound

/-- A word that is found has its weight at least. -/
lemma dropFolded?_consumes (word : List Char) : Consumes (weight word) (dropFolded? word) := by
  intro s after hfound
  obtain ⟨found, rfl, hsame⟩ := dropFolded?_eq_some_iff.1 hfound
  exact ⟨found, rfl, (weight_of_sameFolded hsame).ge⟩

lemma afterComma_suffix (s : List Char) : afterComma s <:+ s := by
  have hdrop := dropWhile_suffix isSpace (l := s)
  unfold afterComma
  split
  · next rest hcomma =>
    rw [hcomma] at hdrop
    exact ((dropWhile_suffix isSpace).trans (suffix_cons ..)).trans hdrop
  · exact hdrop

/-- A window start with its name weighs three at least. -/
lemma afterStart?_consumes : Consumes 3 afterStart? :=
  ((dropFolded?_consumes _).bind (afterGap?_consumes.bind ((dropFolded?_consumes _).bind
    (afterGap?_consumes.bind afterName?_consumes)))).mono (by decide)

/-- A column that is found weighs three at least. -/
lemma afterColumn?_consumes : Consumes (weight "".toList + 3) afterColumn? := by
  intro s after hfound
  rw [afterColumn?_eq] at hfound
  obtain ⟨u, hu, rfl⟩ := Option.map_eq_some_iff.1 hfound
  obtain ⟨found, rfl, hweight⟩ := afterStart?_consumes s u hu
  obtain ⟨spaces, hspaces⟩ := afterComma_suffix u
  refine ⟨found ++ spaces, by rw [append_assoc, hspaces], ?_⟩
  rw [weight_append]
  exact hweight.trans (Nat.le_add_right ..)

/-- A find under `EndTs` weighs three more than the end of the window. -/
lemma afterEnd?_consumes : Consumes (weight "WINDOWEND AS EndTs".toList + 3) afterEnd? :=
  ((dropFolded?_consumes _).bind (afterGap?_consumes.bind
    (((dropFolded?_consumes _).bind afterGap?_consumes).getD
      ((dropFolded?_consumes _).filter fun after => !startsWord after)))).mono (by decide)

/-- A find before FROM weighs one more than the line alone. -/
lemma afterDangling?_consumes : Consumes (weight "\nFROM".toList + 1) afterDangling? := by
  intro s after hfound
  cases s with
  | nil => cases hfound
  | cons c s =>
    by_cases hc : c = ','
    · subst hc
      rw [afterDangling?_comma] at hfound
      split at hfound
      · next hline =>
        cases hfound
        rw [Bool.and_eq_true, Bool.and_eq_true, beq_iff_eq, isPrefixOf_iff_prefix] at hline
        obtain ⟨⟨hgap, after, hafter⟩, -⟩ := hline
        refine ⟨',' :: (s.takeWhile isBlank ++ "FROM".toList), ?_, ?_⟩
        · have hdrop : (s.dropWhile isBlank).drop 4 = after := by
            rw [← hafter]
            rfl
          rw [hdrop, cons_append, append_assoc, hafter, takeWhile_append_dropWhile]
        · have hpos := length_pos_of_mem (mem_of_getLast? hgap)
          refine le_trans ?_ (length_le_weight _)
          rw [length_cons, length_append]
          have hwritten : weight "\nFROM".toList = 5 := by decide
          have hfrom : "FROM".toList.length = 4 := rfl
          omega
      · cases hfound
    · rw [afterDangling?_cons hc] at hfound
      cases hfound

lemma isSpace_of_not_blank {c : Char} (h : isBlank c = false) : isSpace c = false := by
  rw [isSpace, Bool.or_eq_false_iff, beq_eq_false_iff_ne, beq_eq_false_iff_ne]
  constructor
  · rintro rfl
    exact absurd h (by decide)
  · rintro rfl
    exact absurd h (by decide)

/-- A character that ends words, names and white space. -/
def isStop (c : Char) : Bool :=
  !isWord c && !isNameStart c && !isBlank c

section

variable {c : Char} (hstop : isStop c = true)

include hstop

/-- A stop is neither white space nor part of a word. -/
lemma isStop_classes : isWord c = false ∧ isNameStart c = false ∧ isBlank c = false := by
  rw [isStop, Bool.and_eq_true, Bool.and_eq_true, Bool.not_eq_true', Bool.not_eq_true',
    Bool.not_eq_true'] at hstop
  exact ⟨hstop.1.1, hstop.1.2, hstop.2⟩

lemma dropFolded?_haltsAt {word : List Char} (h : word.all isNamePart) :
    HaltsAt c (dropFolded? word) := by
  intro u rest
  have hrest : startsWord (c :: rest) = false := (isStop_classes hstop).1
  exact dropFolded?_front (all_eq_true.1 h) hrest u

lemma afterGap?_haltsAt : HaltsAt c afterGap? := by
  obtain ⟨-, -, hblank⟩ := isStop_classes hstop
  intro u rest
  unfold afterGap?
  rw [dropWhile_append_cons hblank]
  cases u with
  | nil => simp [hblank]
  | cons d u => cases hd : isBlank d <;> simp [hd]

lemma afterName?_haltsAt : HaltsAt c afterName? := by
  obtain ⟨hword, hstart, -⟩ := isStop_classes hstop
  intro u rest
  unfold afterName?
  rw [dropWhile_append_cons hword]
  cases u with
  | nil => simp [hstart]
  | cons d u => cases hd : isNameStart d <;> simp [hd]

/-- A window start does not reach beyond a stop. -/
lemma afterStart?_haltsAt : HaltsAt c afterStart? :=
  (dropFolded?_haltsAt hstop (by decide)).bind ((afterGap?_haltsAt hstop).bind
    ((dropFolded?_haltsAt hstop (by decide)).bind
      ((afterGap?_haltsAt hstop).bind (afterName?_haltsAt hstop))))

lemma startsWord_stop (u rest : List Char) : startsWord (u ++ c :: rest) = startsWord u := by
  cases u with
  | nil => exact (isStop_classes hstop).1
  | cons d u => rfl

/-- Nor does one under `EndTs`. -/
lemma afterEnd?_haltsAt : HaltsAt c afterEnd? := by
  have hnamed : HaltsAt c fun s =>
      (dropFolded? "ENDTS".toList s).filter fun after => !startsWord after := by
    intro u rest
    dsimp only
    rw [dropFolded?_haltsAt hstop (by decide) u rest]
    cases dropFolded? "ENDTS".toList u with
    | none => rfl
    | some v =>
      simp only [Option.map_some, Option.filter_some, startsWord_stop hstop]
      split
      · rfl
      · rfl
  exact (dropFolded?_haltsAt hstop (by decide)).bind ((afterGap?_haltsAt hstop).bind
    (((dropFolded?_haltsAt hstop (by decide)).bind (afterGap?_haltsAt hstop)).getD hnamed))

/-- Nor does a comma before FROM. -/
lemma afterDangling?_stop {u : List Char} (hu : u ≠ []) (rest : List Char) :
    afterDangling? (u ++ c :: rest) = (afterDangling? u).map (· ++ c :: rest) := by
  obtain ⟨hword, -, hblank⟩ := isStop_classes hstop
  obtain ⟨d, u, rfl⟩ := exists_cons_of_ne_nil hu
  by_cases hd : d = ','
  · subst hd
    have hfrom : c ∉ "FROM".toList := by
      intro hmem
      have hletters : "FROM".toList.all isWord := by decide
      rw [all_eq_true.1 hletters c hmem] at hword
      cases hword
    rw [cons_append, afterDangling?_comma, afterDangling?_comma, takeWhile_append_cons hblank,
      dropWhile_append_cons hblank, isPrefixOf_append_cons hfrom]
    cases hmatch : "FROM".toList.isPrefixOf (u.dropWhile isBlank) with
    | false => simp
    | true =>
      have hfour : 4 ≤ (u.dropWhile isBlank).length :=
        (List.isPrefixOf_iff_prefix.1 hmatch).length_le
      rw [drop_append_of_le_length hfour, startsWord_stop hstop]
      split
      · rfl
      · rfl
  · rw [cons_append, afterDangling?_cons hd, afterDangling?_cons hd]
    rfl

lemma afterComma_stop (hc : c ≠ ',') (u rest : List Char) :
    afterComma (u ++ c :: rest) = afterComma u ++ c :: rest := by
  have hspace := isSpace_of_not_blank (isStop_classes hstop).2.2
  unfold afterComma
  rw [dropWhile_append_cons hspace]
  cases u.dropWhile isSpace with
  | nil =>
    rw [nil_append]
    split
    · next heq => exact absurd (cons.inj heq).1 hc
    · rfl
  | cons d v =>
    by_cases hd : d = ','
    · subst hd
      exact dropWhile_append_cons hspace v rest
    · rw [cons_append]
      split
      · next heq => exact absurd (cons.inj heq).1 hd
      · split
        · next heq => exact absurd (cons.inj heq).1 hd
        · rfl

/-- A column does not reach beyond a stop other than a comma. -/
lemma afterColumn?_haltsAt (hc : c ≠ ',') : HaltsAt c afterColumn? := by
  intro u rest
  rw [afterColumn?_eq, afterColumn?_eq, afterStart?_haltsAt hstop u rest, Option.map_map,
    Option.map_map]
  congr 1
  funext v
  exact afterComma_stop hstop hc v rest

end

/-! ## Columns that are the window start -/

/-- What separates columns. -/
def separator : List Char :=
  ", ".toList

/-- What ends a column: its last word does not go on, and behind white space there is FROM. -/
def EndsColumn (rest : List Char) : Prop :=
  startsWord rest = false ∧ ∀ s, afterGap? rest = some s → ∃ b, s = "FROM ".toList ++ b

/-- A separator ends a column. -/
lemma endsColumn_separator (rest : List Char) : EndsColumn (separator ++ rest) :=
  ⟨rfl, fun _ hs => by cases hs⟩

/-- The line of the source ends a column. -/
lemma endsColumn_fromLine (rest : List Char) : EndsColumn (fromLine ++ rest) :=
  ⟨rfl, fun _ hs => ⟨rest, (Option.some.inj hs).symm⟩⟩

/-- Nothing is found at a word that ends a column. -/
lemma unfound_word {z rest : List Char} (hz : IsWordText z) (hrest : EndsColumn rest)
    {scan : List Char → Option (List Char)} (hscan : ∀ b, scan ("FROM ".toList ++ b) = none) :
    ((dropFolded? "WINDOWSTART".toList (z ++ rest)).bind fun s => (afterGap? s).bind scan) =
      none := by
  rw [dropFolded?_front (all_eq_true.1 (by decide)) hrest.1]
  cases hu : dropFolded? "WINDOWSTART".toList z with
  | none => rfl
  | some u =>
    obtain ⟨m, rfl, -⟩ := dropFolded?_eq_some_iff.1 hu
    rw [Option.map_some, Option.bind_some]
    cases u with
    | nil =>
      rw [nil_append]
      cases hgap : afterGap? rest with
      | none => rfl
      | some s =>
        obtain ⟨b, rfl⟩ := hrest.2 s hgap
        exact hscan b
    | cons c u =>
      have hc : ¬ isBlank c := Bool.eq_false_iff.1 (Placement.isBlank_of_isWord (hz c (by simp)))
      have hgap : afterGap? (c :: u ++ rest) = none := if_neg hc
      rw [hgap]
      rfl

/-- A column that is the window start: the word, ignoring case, with a name. -/
structure StartColumn where
  word : List Char
  name : List Char
  isStart : SameFolded word "WINDOWSTART".toList
  isName : isName name = true

namespace StartColumn

variable (s : StartColumn)

/-- The text of the column. -/
def text : List Char :=
  s.word ++ (" AS ".toList ++ s.name)

/-- The column is named `EndTs`, ignoring case. -/
def IsEnd : Prop :=
  SameFolded s.name "ENDTS".toList

/-- It can be checked whether a column is named so. -/
instance : Decidable s.IsEnd :=
  inferInstanceAs (Decidable (SameFolded ..))

lemma text_ne_nil : s.text ≠ [] := by
  intro hnil
  have hlength := s.isStart.length_eq
  rw [(append_eq_nil_iff.1 hnil).1] at hlength
  cases hlength

/-- The name of a window start is a word. -/
lemma name_isWordText : IsWordText s.name := by
  have hname := s.isName
  rw [Placement.isName, Bool.and_eq_true, all_eq_true] at hname
  exact hname.2

lemma afterGap?_name (rest : List Char) :
    afterGap? (' ' :: (s.name ++ rest)) = some (s.name ++ rest) := by
  obtain ⟨c, cs, hcons, -, hblank, -⟩ := Placement.isName_head s.isName rest
  have hfirst : (s.name ++ rest).head?.any isBlank = false := by
    rw [hcons]
    exact hblank
  rw [afterGap?, (Placement.span_space hfirst).2]
  rfl

/-- A window start begins with its word. -/
lemma dropFolded?_text (rest : List Char) :
    dropFolded? "WINDOWSTART".toList (s.text ++ rest) = some (" AS ".toList ++ (s.name ++ rest)) :=
  dropFolded?_eq_some_iff.2 ⟨s.word, by simp only [text, append_assoc], s.isStart⟩

/-- A window start is found where it begins. -/
lemma afterStart?_text {rest : List Char} (h : startsWord rest = false) :
    afterStart? (s.text ++ rest) = some rest := by
  obtain ⟨c, cs, hcons, hstart, -, -⟩ := Placement.isName_head s.isName rest
  have hname : afterName? (s.name ++ rest) = some rest := by
    have hhead : (s.name ++ rest).head?.any isNameStart := by
      rw [hcons]
      exact hstart
    rw [afterName?, dropWhile_run s.name_isWordText h, if_pos hhead]
  unfold afterStart?
  rw [s.dropFolded?_text rest]
  have hgap := s.afterGap?_name rest
  change (afterGap? (' ' :: (s.name ++ rest))).bind afterName? = some rest
  rw [hgap]
  exact hname

/-- It is found under `EndTs` exactly if that is its name. -/
lemma afterEnd?_text {rest : List Char} (h : startsWord rest = false) :
    afterEnd? (s.text ++ rest) = if s.IsEnd then some rest else none := by
  unfold afterEnd?
  rw [s.dropFolded?_text rest]
  change (dropFolded? "ENDTS".toList ((afterGap? (' ' :: (s.name ++ rest))).getD _)).filter _ = _
  rw [s.afterGap?_name rest, Option.getD_some]
  split
  · next hend =>
    rw [dropFolded?_eq_some_iff.2 ⟨s.name, rfl, hend⟩, Option.filter_some, h]
    rfl
  · next hend =>
    cases hfound : dropFolded? "ENDTS".toList (s.name ++ rest) with
    | none => rfl
    | some after =>
      obtain ⟨m, hm, hsame⟩ := dropFolded?_eq_some_iff.1 hfound
      cases hafter : startsWord after with
      | true => rw [Option.filter_some, hafter]; rfl
      | false =>
        have hword : IsWordText m := hsame.isWordText (all_eq_true.1 (by decide))
        obtain ⟨heq, -⟩ := word_unique hm s.name_isWordText hword h hafter
        rw [IsEnd, heq] at hend
        exact absurd hsame hend

/-- Nothing is found inside of a window start. -/
lemma unfound {z rest : List Char} (hz : z <:+ s.text) (hinner : z ≠ s.text)
    (hrest : EndsColumn rest) : afterColumn? (z ++ rest) = none ∧ afterEnd? (z ++ rest) = none := by
  -- at all but the name there is not even the word
  suffices hword : dropFolded? "WINDOWSTART".toList (z ++ rest) = none ∨ IsWordText z by
    rcases hword with hnone | hword
    · rw [afterColumn?, afterEnd?, hnone]
      exact ⟨rfl, rfl⟩
    · exact ⟨unfound_word hword hrest fun _ => rfl, unfound_word hword hrest fun _ => rfl⟩
  rcases suffix_append_cases hz with hz | ⟨y, hy, -, rfl⟩
  · rcases suffix_append_cases hz with hz | ⟨y, hy, hyne, rfl⟩
    · exact .inr fun c hc => s.name_isWordText c (hz.subset hc)
    · have hpassed : Passed " AS ".toList := passed_of_inert (by decide)
      rw [append_assoc]
      exact .inl (hpassed y hy hyne _).1
  · have hshort : y.length < s.word.length := by
      refine lt_of_le_of_ne hy.length_le fun hlength => hinner ?_
      rw [hy.eq_of_length hlength, text]
    have hnone : dropFolded? "WINDOWSTART".toList y = none := by
      cases hfound : dropFolded? "WINDOWSTART".toList y with
      | none => rfl
      | some after =>
        obtain ⟨m, rfl, hsame⟩ := dropFolded?_eq_some_iff.1 hfound
        have hlength := hsame.length_eq.trans s.isStart.length_eq.symm
        rw [length_append] at hshort
        omega
    have hspace : startsWord (" AS ".toList ++ (s.name ++ rest)) = false :=
      (rfl : isWord ' ' = false)
    refine .inl ?_
    rw [append_assoc, append_assoc, dropFolded?_front (all_eq_true.1 (by decide)) hspace, hnone]
    rfl

/-- No comma is found in a window start. -/
lemma afterDangling?_text {z : List Char} (hz : z <:+ s.text) (hne : z ≠ []) (rest : List Char) :
    afterDangling? (z ++ rest) = none := by
  obtain ⟨c, z, rfl⟩ := exists_cons_of_ne_nil hne
  refine afterDangling?_cons ?_ _
  rintro rfl
  have hword : ∀ w : List Char, IsWordText w → ',' ∉ w := fun w hw hmem =>
    absurd (hw ',' hmem) (by decide)
  have hmem := hz.subset (mem_cons_self ..)
  rw [text, mem_append, mem_append] at hmem
  rcases hmem with hmem | hmem | hmem
  · exact hword s.word (s.isStart.isWordText (all_eq_true.1 (by decide))) hmem
  · exact absurd hmem (by decide)
  · exact hword s.name s.name_isWordText hmem

end StartColumn

end StreamQuery.WindowStart
