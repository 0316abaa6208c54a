import Mathlib.Tactic.Common
import StreamQuery.Edit.KeyPath

/-!
# Edits of whole words

A word of name characters matches exactly the runs of word characters that equal it ignoring case
(`afterWord?_eq_some_iff`, `word_unique`), so an edit of whole words takes a text apart at the
characters between words: `substituteFrom_word` passes over a word that is not accepted,
`substituteFrom_between` over a character between words, and `substituteFrom_found` writes for a
word that is accepted.
-/

namespace StreamQuery.Text

open List

variable {c k : Char} {w s t word after before rest m : List Char} {rule : Rule}

/-! ## Name characters -/

/-- The characters of names in ASCII. -/
def isNamePart (c : Char) : Bool :=
  c.isAlphanum || c == '_'

/-- The characters of names in capitals. -/
def isCapital (c : Char) : Bool :=
  c.isUpper || c.isDigit || c == '_'

lemma isNamePart_ascii (h : isNamePart c) : c.toNat < 0x80 := by
  unfold isNamePart Char.isAlphanum Char.isAlpha Char.isUpper Char.isLower Char.isDigit at h
  simp only [Bool.or_eq_true, Bool.and_eq_true, decide_eq_true_eq, beq_iff_eq,
    UInt32.le_iff_toNat_le] at h
  rcases h with ((⟨-, h⟩ | ⟨-, h⟩) | ⟨-, h⟩) | rfl
  · exact Nat.lt_of_le_of_lt h (by decide)
  · exact Nat.lt_of_le_of_lt h (by decide)
  · exact Nat.lt_of_le_of_lt h (by decide)
  · decide

lemma isNamePart_of_isCapital (h : isCapital c) : isNamePart c := by
  unfold isCapital at h
  unfold isNamePart Char.isAlphanum Char.isAlpha
  simp only [Bool.or_eq_true] at h ⊢
  tauto

lemma toNat_of_ofNat {n : Nat} (hk : k.toNat ≠ 0) (h : Char.ofNat n = k) : n = k.toNat := by
  unfold Char.ofNat at h
  by_cases hvalid : n.isValidChar
  · rw [dif_pos hvalid] at h
    exact congrArg Char.toNat h
  · rw [dif_neg hvalid] at h
    rw [← h] at hk
    exact absurd rfl hk

/-- What folds to ASCII is ASCII, the long s or the Kelvin sign. -/
lemma ascii_of_fold (h : fold c = k) (hzero : k.toNat ≠ 0) (hascii : k.toNat < 0x80) :
    c.toNat < 0x80 ∨ c = Char.ofNat 0x17F ∨ c = Char.ofNat 0x212A := by
  have hruns : ∀ r ∈ foldRuns, r.2.2.2 < 0x80 → r.1 = r.2.1 ∧ (r.1 = 0x17F ∨ r.1 = 0x212A) := by
    decide +kernel
  by_cases hc : c.toNat < 0x80
  · exact .inl hc
  · right
    rw [fold, if_neg hc] at h
    have hcode := toNat_of_ofNat hzero h
    unfold foldCode at hcode
    split at hcode
    · next r hr =>
      have hrange := find?_some hr
      simp only [Bool.and_eq_true, decide_eq_true_eq] at hrange
      obtain ⟨hsame, hfirst⟩ := hruns r (mem_of_find?_eq_some hr) (by omega)
      rcases hfirst with hfirst | hfirst
      · left
        rw [← Char.ofNat_toNat c, show c.toNat = 0x17F by omega]
      · right
        rw [← Char.ofNat_toNat c, show c.toNat = 0x212A by omega]
    · exact absurd (hcode ▸ hascii) hc

lemma ascii_induction {P : Char → Prop} (h : ∀ n < 0x80, P (Char.ofNat n)) (hc : c.toNat < 0x80) :
    P c := by
  have hn := h c.toNat hc
  rwa [Char.ofNat_toNat] at hn

lemma isWord_of_isNamePart (h : isNamePart c) : isWord c := by
  rw [isWord, if_pos (isNamePart_ascii h)]
  exact h

/-- What equals a name character up to case is in a word. -/
lemma isWord_of_fold {p : Char} (hp : isNamePart p) (h : fold c = fold p) : isWord c := by
  have hpascii := isNamePart_ascii hp
  have hlower : ∀ n < 0x80, isNamePart (Char.ofNat n) →
      (fold (Char.ofNat n)).toNat ≠ 0 ∧ (fold (Char.ofNat n)).toNat < 0x80 ∧
        isNamePart (fold (Char.ofNat n)) := by decide
  have hback : ∀ n < 0x80, isNamePart (fold (Char.ofNat n)) →
      isNamePart (Char.ofNat n) := by decide
  obtain ⟨hzero, hascii, hname⟩ := ascii_induction (P := fun p => isNamePart p →
    (fold p).toNat ≠ 0 ∧ (fold p).toNat < 0x80 ∧ isNamePart (fold p)) hlower hpascii hp
  rcases ascii_of_fold h hzero hascii with hc | rfl | rfl
  · have hpart := ascii_induction (P := fun c => isNamePart (fold c) → isNamePart c)
      hback hc (h ▸ hname)
    exact isWord_of_isNamePart hpart
  · decide +kernel
  · decide +kernel

/-- An ASCII sign equals nothing else up to case. -/
lemma eq_of_fold_sign (hzero : k.toNat ≠ 0) (hascii : k.toNat < 0x80) (hk : k.isAlpha = false)
    (h : fold c = fold k) : c = k := by
  have hkept : ∀ n < 0x80, (fold (Char.ofNat n)).isAlpha = (Char.ofNat n).isAlpha ∧
      ((Char.ofNat n).isAlpha = false → fold (Char.ofNat n) = Char.ofNat n) := by decide
  have hsign : ∀ {d : Char}, d.toNat < 0x80 →
      (fold d).isAlpha = d.isAlpha ∧ (d.isAlpha = false → fold d = d) := fun hd =>
    ascii_induction (P := fun d => (fold d).isAlpha = d.isAlpha ∧ (d.isAlpha = false → fold d = d))
      hkept hd
  rw [(hsign hascii).2 hk] at h
  rcases ascii_of_fold h hzero hascii with hc | rfl | rfl
  · have hletter := (hsign hc).1
    rw [h, hk] at hletter
    rw [← h, (hsign hc).2 hletter.symm]
  · exact absurd hk (by rw [← h]; decide +kernel)
  · exact absurd hk (by rw [← h]; decide +kernel)

lemma eq_dot_of_fold (h : fold c = fold '.') : c = '.' :=
  eq_of_fold_sign (by decide) (by decide) (by decide) h

/-- Capitals that agree up to case are equal. -/
lemma eq_of_fold_capital {d : Char} (hc : isCapital c) (hd : isCapital d)
    (h : fold c = fold d) : c = d := by
  have hupper : ∀ n < 0x80, isCapital (Char.ofNat n) →
      (fold (Char.ofNat n)).toUpper = Char.ofNat n := by decide
  have hback : ∀ x : Char, isCapital x → (fold x).toUpper = x := fun x hx =>
    ascii_induction (P := fun x => isCapital x → (fold x).toUpper = x) hupper
      (isNamePart_ascii (isNamePart_of_isCapital hx)) hx
  rw [← hback c hc, ← hback d hd, h]

/-! ## Words -/

/-- A text of word characters. -/
def IsWordText (w : List Char) : Prop :=
  ∀ c ∈ w, isWord c = true

/-- A text that begins with a word starts with a word. -/
lemma IsWordText.startsWord (h : IsWordText w) (hw : w ≠ []) (rest : List Char) :
    startsWord (w ++ rest) := by
  cases w with
  | nil => exact absurd rfl hw
  | cons c w => exact h c (mem_cons_self ..)

lemma IsWordText.reverse (h : IsWordText w) : IsWordText w.reverse :=
  fun c hc => h c (mem_reverse.1 hc)

/-- Two texts are equal ignoring case. -/
def SameFolded (s t : List Char) : Prop :=
  s.map fold = t.map fold

/-- It can be checked whether texts are equal ignoring case. -/
instance (s t : List Char) : Decidable (SameFolded s t) :=
  inferInstanceAs (Decidable (s.map fold = t.map fold))

/-- Texts that agree up to case have the same length. -/
lemma SameFolded.length_eq (h : SameFolded s t) : s.length = t.length := by
  simpa using congrArg length h

lemma SameFolded.symm (h : SameFolded s t) : SameFolded t s :=
  Eq.symm h

lemma SameFolded.trans {u : List Char} (h : SameFolded s t) (h' : SameFolded t u) :
    SameFolded s u :=
  Eq.trans h h'

/-- Texts in capitals that agree up to case are equal. -/
lemma SameFolded.eq_of_capital (h : SameFolded s t) (hs : ∀ c ∈ s, isCapital c)
    (ht : ∀ c ∈ t, isCapital c) : s = t := by
  induction s generalizing t with
  | nil => exact (eq_nil_of_length_eq_zero h.length_eq.symm).symm
  | cons c s ih =>
    cases t with
    | nil => cases h.length_eq
    | cons d t =>
      obtain ⟨hfold, hrest⟩ := cons.inj h
      have hcd := eq_of_fold_capital (hs c (mem_cons_self ..)) (ht d (mem_cons_self ..))
        hfold
      rw [hcd, ih hrest (forall_mem_cons.1 hs).2
        (forall_mem_cons.1 ht).2]

/-- What agrees with a name up to case is a word. -/
lemma SameFolded.isWordText (h : SameFolded s t) (ht : ∀ c ∈ t, isNamePart c) : IsWordText s := by
  induction s generalizing t with
  | nil => exact fun c hc => absurd hc not_mem_nil
  | cons c s ih =>
    cases t with
    | nil => cases h.length_eq
    | cons d t =>
      obtain ⟨hfold, hrest⟩ := cons.inj h
      intro x hx
      rcases mem_cons.1 hx with rfl | hx
      · exact isWord_of_fold (ht d (mem_cons_self ..)) hfold
      · exact ih hrest (forall_mem_cons.1 ht).2 x hx

/-- A word is dropped exactly where it stands, up to case. -/
lemma dropFolded?_eq_some_iff :
    dropFolded? word s = some after ↔ ∃ m, s = m ++ after ∧ SameFolded m word := by
  induction word generalizing s with
  | nil =>
    rw [dropFolded?_nil]
    constructor
    · intro h
      exact ⟨[], Option.some.inj h, rfl⟩
    · rintro ⟨m, rfl, hm⟩
      rw [eq_nil_of_length_eq_zero hm.length_eq, nil_append]
  | cons p word ih =>
    constructor
    · intro h
      cases s with
      | nil => cases h
      | cons c s =>
        rw [dropFolded?] at h
        split at h
        · next hfold =>
          obtain ⟨m, rfl, hm⟩ := ih.1 h
          refine ⟨c :: m, rfl, ?_⟩
          rw [SameFolded, map_cons, map_cons, beq_iff_eq.1 hfold]
          exact congrArg _ hm
        · cases h
    · rintro ⟨m, rfl, hm⟩
      cases m with
      | nil => cases hm.length_eq
      | cons c m =>
        obtain ⟨hfold, hrest⟩ := cons.inj hm
        rw [cons_append, dropFolded?, if_pos (beq_iff_eq.2 hfold.symm)]
        exact ih.2 ⟨m, rfl, hrest⟩

/-- A word that begins and ends with a name character. -/
structure WholeWord (word : List Char) : Prop where
  first : word.head?.any isNamePart = true
  last : word.reverse.head?.any isNamePart = true

lemma WholeWord.ne_nil (h : WholeWord word) : word ≠ [] := by
  rintro rfl
  cases h.first

lemma SameFolded.startsWord (h : SameFolded s t) (ht : t.head?.any isNamePart)
    (rest : List Char) : startsWord (s ++ rest) := by
  cases t with
  | nil => cases ht
  | cons d t =>
    cases s with
    | nil => cases h.length_eq
    | cons c s => exact isWord_of_fold ht (cons.inj h).1

lemma SameFolded.reverse (h : SameFolded s t) : SameFolded s.reverse t.reverse := by
  rw [SameFolded, map_reverse, map_reverse]
  exact congrArg List.reverse h

/-- A whole word matches what equals it ignoring case and has no word characters around it. -/
lemma afterWord?_eq_some_iff (hword : WholeWord word) : afterWord? word before rest = some after ↔
      startsWord before = false ∧ startsWord after = false ∧
        ∃ m, rest = m ++ after ∧ SameFolded m word := by
  have hends : ∀ m : List Char, SameFolded m word →
      wordBoundary before (m ++ after) = !startsWord before ∧
        wordBoundary (((m ++ after).take word.length).reverse ++ before) after =
          !startsWord after := by
    intro m hm
    have htake : (m ++ after).take word.length = m := by
      rw [← hm.length_eq, take_left]
    unfold wordBoundary
    rw [htake, hm.startsWord hword.first, hm.reverse.startsWord hword.last]
    constructor
    · cases startsWord before <;> rfl
    · cases startsWord after <;> rfl
  constructor
  · intro h
    unfold afterWord? at h
    split at h
    · next hfirst =>
      obtain ⟨hdrop, hlast⟩ := Option.filter_eq_some_iff.1 h
      obtain ⟨m, rfl, hm⟩ := dropFolded?_eq_some_iff.1 hdrop
      obtain ⟨hbefore, hafter⟩ := hends m hm
      rw [hbefore, Bool.not_eq_true'] at hfirst
      rw [hafter, Bool.not_eq_true'] at hlast
      exact ⟨hfirst, hlast, m, rfl, hm⟩
    · cases h
  · rintro ⟨hfirst, hlast, m, rfl, hm⟩
    obtain ⟨hbefore, hafter⟩ := hends m hm
    unfold afterWord?
    rw [hbefore, hfirst, Bool.not_false, if_pos rfl, dropFolded?_eq_some_iff.2 ⟨m, rfl, hm⟩,
      Option.filter_eq_some_iff]
    exact ⟨rfl, by rw [hafter, hlast, Bool.not_false]⟩

/-- A run of characters that does not go on is what is taken from a text. -/
lemma takeWhile_run {p : Char → Bool} {x : List Char} (hm : ∀ c ∈ m, p c)
    (hx : x.head?.any p = false) : (m ++ x).takeWhile p = m := by
  rw [takeWhile_append_of_pos hm]
  cases x with
  | nil => exact append_nil m
  | cons c x =>
    have hc : ¬p c := Bool.eq_false_iff.1 hx
    rw [takeWhile_cons_of_neg hc, append_nil]

/-- Behind a run of characters that does not go on is what is left of a text. -/
lemma dropWhile_run {p : Char → Bool} {x : List Char} (hm : ∀ c ∈ m, p c)
    (hx : x.head?.any p = false) : (m ++ x).dropWhile p = x := by
  rw [dropWhile_append_of_pos hm]
  cases x with
  | nil => rfl
  | cons c x => exact dropWhile_cons_of_neg (Bool.eq_false_iff.1 hx)

lemma head?_dropWhile_any (p : Char → Bool) (s : List Char) :
    (s.dropWhile p).head?.any p = false := by
  induction s with
  | nil => rfl
  | cons c s ih =>
    by_cases hc : p c
    · rwa [dropWhile_cons_of_pos hc]
    · rw [dropWhile_cons_of_neg hc]
      exact Bool.eq_false_iff.2 hc

/-- A text begins with one run of word characters. -/
lemma word_unique (h : m ++ after = w ++ rest) (hm : IsWordText m) (hw : IsWordText w)
    (hafter : startsWord after = false) (hrest : startsWord rest = false) :
    m = w ∧ after = rest := by
  induction m generalizing w with
  | nil =>
    cases w with
    | nil => exact ⟨rfl, h⟩
    | cons d w =>
      rw [nil_append] at h
      rw [h] at hafter
      exact absurd (hw d (mem_cons_self ..)) (Bool.eq_false_iff.1 hafter)
  | cons c m ih =>
    cases w with
    | nil =>
      rw [nil_append] at h
      rw [← h] at hrest
      exact absurd (hm c (mem_cons_self ..)) (Bool.eq_false_iff.1 hrest)
    | cons d w =>
      obtain ⟨rfl, htail⟩ := cons.inj h
      obtain ⟨rfl, hsame⟩ := ih htail (forall_mem_cons.1 hm).2
        (forall_mem_cons.1 hw).2
      exact ⟨rfl, hsame⟩

/-! ## Substitutions -/

/-- A rule that looks ahead only substitutes alike whatever is before. -/
lemma substituteFrom_before_eq (h : ∀ before before' rest, rule before rest = rule before' rest)
    (skip : Nat) (before before' rest : List Char) :
    substituteFrom rule skip before rest = substituteFrom rule skip before' rest := by
  induction rest generalizing skip before before' with
  | nil =>
    cases skip with
    | succ skip => rfl
    | zero => rw [substituteFrom, substituteFrom, h before before']
  | cons c rest ih =>
    cases skip with
    | succ skip => exact ih skip (c :: before) (c :: before')
    | zero => simp only [substituteFrom, h before before', ih _ (c :: before) (c :: before')]

/-- Characters to be passed over. -/
lemma substituteFrom_skip (rule : Rule) (m before rest : List Char) :
    substituteFrom rule m.length before (m ++ rest) =
      substituteFrom rule 0 (m.reverse ++ before) rest := by
  induction m generalizing before with
  | nil => rfl
  | cons c m ih =>
    rw [cons_append, length_cons, substituteFrom, ih, reverse_cons, append_assoc]
    rfl

/-- What a rule takes is replaced, and the substitution goes on behind. -/
lemma substituteFrom_taken {written : List Char} (hm : m ≠ [])
    (h : rule before (m ++ after) = some (m.length, written)) :
    substituteFrom rule 0 before (m ++ after) =
      written ++ substituteFrom rule 0 (m.reverse ++ before) after := by
  obtain ⟨c, m, rfl⟩ := exists_cons_of_ne_nil hm
  rw [cons_append] at h ⊢
  rw [substituteFrom, h, length_cons]
  dsimp only
  rw [substituteFrom_skip, reverse_cons, append_assoc]
  rfl

/-- A character where a rule finds nothing is kept. -/
lemma substituteFrom_kept (h : rule before (c :: rest) = none) :
    substituteFrom rule 0 before (c :: rest) = c :: substituteFrom rule 0 (c :: before) rest := by
  rw [substituteFrom, h]

section

variable {word written : List Char} {accept : List Char → List Char → Bool}

variable {before : List Char}

/-- Where a whole word is found, the text or its replacement is written. -/
lemma substituteFrom_found (hword : WholeWord word) {m after : List Char}
    (h : afterWord? word before (m ++ after) = some after) :
    substituteFrom (wordRule word written accept) 0 before (m ++ after) =
      (if accept before after then written else m) ++
        substituteFrom (wordRule word written accept) 0 (m.reverse ++ before) after := by
  obtain ⟨-, -, m', hm', hsame⟩ := (afterWord?_eq_some_iff hword).1 h
  obtain rfl : m = m' := append_cancel_right hm'
  have hrule : wordRule word written accept before (m ++ after) =
      some (m.length, if accept before after then written else m) := by
    unfold wordRule
    rw [h, Option.map_some, ← hsame.length_eq, take_left]
  refine substituteFrom_taken ?_ hrule
  rintro rfl
  exact hword.ne_nil (eq_nil_of_length_eq_zero hsame.length_eq.symm)

/-- Where no whole word begins, a character is kept. -/
lemma substituteFrom_unfound {rest : List Char} {c : Char}
    (h : afterWord? word before (c :: rest) = none) :
    substituteFrom (wordRule word written accept) 0 before (c :: rest) =
      c :: substituteFrom (wordRule word written accept) 0 (c :: before) rest := by
  refine substituteFrom_kept ?_
  unfold wordRule
  rw [h, Option.map_none]

lemma substituteFrom_nil (hword : WholeWord word) (before : List Char) :
    substituteFrom (wordRule word written accept) 0 before [] = [] := by
  have hnone : afterWord? word before [] = none := by
    rw [Option.eq_none_iff_forall_ne_some]
    intro after h
    obtain ⟨-, -, m, hm, hsame⟩ := (afterWord?_eq_some_iff hword).1 h
    obtain ⟨rfl, rfl⟩ := append_eq_nil_iff.1 hm.symm
    exact absurd (eq_nil_of_length_eq_zero hsame.length_eq.symm) hword.ne_nil
  have hrule : wordRule word written accept before [] = none := by
    unfold wordRule
    rw [hnone, Option.map_none]
  rw [substituteFrom, hrule]

/-- A character between words is kept. -/
lemma substituteFrom_between (hword : WholeWord word) {c : Char} (hc : isWord c = false)
    (before rest : List Char) :
    substituteFrom (wordRule word written accept) 0 before (c :: rest) =
      c :: substituteFrom (wordRule word written accept) 0 (c :: before) rest := by
  refine substituteFrom_unfound ?_
  rw [Option.eq_none_iff_forall_ne_some]
  intro after h
  obtain ⟨-, -, m, hm, hsame⟩ := (afterWord?_eq_some_iff hword).1 h
  have hstart := hsame.startsWord hword.first after
  rw [← hm] at hstart
  exact absurd hstart (Bool.eq_false_iff.1 hc)

/-- Characters between words are kept. -/
lemma substituteFrom_apart (hword : WholeWord word) {gap : List Char}
    (hgap : ∀ c ∈ gap, (!isWord c)) (before rest : List Char) :
    substituteFrom (wordRule word written accept) 0 before (gap ++ rest) =
      gap ++ substituteFrom (wordRule word written accept) 0 (gap.reverse ++ before) rest := by
  induction gap generalizing before with
  | nil => rfl
  | cons c gap ih =>
    have hc : isWord c = false := Bool.not_eq_true' _ ▸ hgap c (mem_cons_self ..)
    rw [cons_append, substituteFrom_between hword hc,
      ih (forall_mem_cons.1 hgap).2, reverse_cons, append_assoc]
    rfl

/-- Inside a word nothing is found. -/
lemma substituteFrom_inside (hword : WholeWord word) {w : List Char} (hw : IsWordText w)
    (hbefore : startsWord before) (rest : List Char) :
    substituteFrom (wordRule word written accept) 0 before (w ++ rest) =
      w ++ substituteFrom (wordRule word written accept) 0 (w.reverse ++ before) rest := by
  induction w generalizing before with
  | nil => rfl
  | cons c w ih =>
    have hnone : afterWord? word before (c :: (w ++ rest)) = none := by
      rw [Option.eq_none_iff_forall_ne_some]
      intro after h
      obtain ⟨hfirst, -⟩ := (afterWord?_eq_some_iff hword).1 h
      rw [hbefore] at hfirst
      cases hfirst
    have hstart : startsWord (c :: before) := hw c (mem_cons_self ..)
    rw [cons_append, substituteFrom_unfound hnone,
      ih (forall_mem_cons.1 hw).2 hstart, reverse_cons,
      append_assoc]
    rfl

/-- A word that is not accepted is kept, if it is what is found there. -/
lemma substituteFrom_word (hword : WholeWord word) {w rest : List Char} (hw : IsWordText w)
    (h : ∀ after, afterWord? word before (w ++ rest) = some after →
      after = rest ∧ accept before rest = false) :
    substituteFrom (wordRule word written accept) 0 before (w ++ rest) =
      w ++ substituteFrom (wordRule word written accept) 0 (w.reverse ++ before) rest := by
  cases hfound : afterWord? word before (w ++ rest) with
  | some after =>
    obtain ⟨rfl, haccept⟩ := h after hfound
    rw [substituteFrom_found hword hfound, haccept]
    rfl
  | none =>
    cases w with
    | nil => rfl
    | cons c w =>
      have hstart : startsWord (c :: before) := hw c (mem_cons_self ..)
      rw [cons_append] at hfound ⊢
      rw [substituteFrom_unfound hfound,
        substituteFrom_inside hword (forall_mem_cons.1 hw).2 hstart,
        reverse_cons, append_assoc]
      rfl

end

end StreamQuery.Text
