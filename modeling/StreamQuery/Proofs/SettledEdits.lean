import StreamQuery.Proofs.KeyPathsOnce
import StreamQuery.Proofs.WindowPlace

/-!
# Edits that have nothing left to do

Key columns are written by a run of edits, one for each key, and each edit looks at what is before
and after a word: it passes over key paths, quoted words and new names.  So an edit can change what
a later or an earlier edit finds.  `Settled` says of a text that an edit, as it goes from left to
right, finds only words that it passes over; such a text is left as it is (`Settled.run_eq`).

An edit settles its own text, and leaves a text settled for the edits that came before it.  Both
rest on what an edit does to the text ahead (`Rewrites`) and to the text behind (`Behind`): a word
that is passed over in a text is passed over in the edited text too (`Behind.renames`,
`Behind.unprefixed`), since a key path ends with the word it is written for.
-/

namespace StreamQuery

open Text List

namespace Text

variable {c : Char} {m : List Char}

/-! ## Words of a text -/

/-- A text is empty, or starts with a gap or a whole word. -/
lemma text_cases (s : List Char) : s = [] ∨ (∃ c s', s = c :: s' ∧ isWord c = false) ∨
    ∃ w s', s = w ++ s' ∧ IsWordText w ∧ w ≠ [] ∧ startsWord s' = false := by
  induction s with
  | nil => exact .inl rfl
  | cons c s ih =>
    cases hc : isWord c with
    | false => exact .inr (.inl ⟨c, s, rfl, hc⟩)
    | true =>
      have hone : IsWordText [c] := fun d hd => by rwa [mem_singleton.1 hd]
      right; right
      obtain rfl | ⟨d, s', rfl, hd⟩ | ⟨w, s', rfl, hw, -, hs'⟩ := ih
      · exact ⟨[c], [], rfl, hone, cons_ne_nil _ _, rfl⟩
      · exact ⟨[c], d :: s', rfl, hone, cons_ne_nil _ _, hd⟩
      · exact ⟨c :: w, s', rfl, forall_mem_cons.2 ⟨hc, hw⟩, cons_ne_nil _ _, hs'⟩

/-- Induction along a text, by characters between words and by whole words. -/
@[elab_as_elim]
lemma text_induction {motive : List Char → Prop} (nil : motive [])
    (gap : ∀ c s, isWord c = false → motive s → motive (c :: s))
    (word : ∀ w s, IsWordText w → w ≠ [] → startsWord s = false → motive s → motive (w ++ s))
    (s : List Char) : motive s := by
  induction hlen : s.length using Nat.strongRecOn generalizing s with
  | _ n ih =>
    subst hlen
    obtain rfl | ⟨c, s', rfl, hc⟩ | ⟨w, s', rfl, hw, hne, hs'⟩ := text_cases s
    · exact nil
    · exact gap c s' hc (ih _ (Nat.lt_succ_self _) s' rfl)
    · have hlength := length_pos_iff.2 hne
      exact word w s' hw hne hs' (ih _ (by rw [length_append]; omega) s' rfl)

/-- No word comes first in a text if none does in its parts. -/
lemma startsWord_append {s t : List Char} (hs : startsWord s = false) (ht : startsWord t = false) :
    startsWord (s ++ t) = false := by
  cases s with
  | nil => exact ht
  | cons c s => exact hs

/-- A word starts a text, ignoring case, and no word character follows. -/
def Reads (word s after : List Char) : Prop :=
  startsWord after = false ∧ ∃ m, s = m ++ after ∧ SameFolded m word

/-- Where no word goes on, a whole word is found if it is there. -/
lemma afterWord?_iff_reads {word before s after : List Char} (hword : WholeWord word)
    (hbefore : startsWord before = false) :
    afterWord? word before s = some after ↔ Reads word s after := by
  rw [afterWord?_eq_some_iff hword]
  exact ⟨fun h => h.2, fun h => ⟨hbefore, h⟩⟩

/-- A word that is not read is not found. -/
lemma afterWord?_eq_none {word before s : List Char} (hword : WholeWord word)
    (hnone : ∀ after, ¬Reads word s after) : afterWord? word before s = none := by
  rw [Option.eq_none_iff_forall_ne_some]
  intro after h
  exact hnone after ((afterWord?_eq_some_iff hword).1 h).2

/-! ## Letters at the end of a text -/

lemma ascii_of_toLower (h : c.toLower.isLower) : c.toNat < 0x80 := by
  unfold Char.toLower Char.isLower at h
  split at h
  · next hupper =>
    have hmost : c.val.toNat ≤ 'Z'.val.toNat := UInt32.le_iff_toNat_le.1 hupper.2
    exact Nat.lt_of_le_of_lt hmost (by decide)
  · simp only [Bool.and_eq_true, decide_eq_true_eq] at h
    have hmost : c.val.toNat ≤ 'z'.val.toNat := UInt32.le_iff_toNat_le.1 h.2
    exact Nat.lt_of_le_of_lt hmost (by decide)

lemma eq_of_toLower {d : Char} (h : c.toLower = d) (hd : d.isLower = false) : c = d := by
  have hascii : ∀ n < 0x80, (Char.ofNat n).toLower.isLower = false →
      Char.ofNat n = (Char.ofNat n).toLower := by decide
  subst h
  by_cases hc : c.toNat < 0x80
  · exact ascii_induction (P := fun c => c.toLower.isLower = false → c = c.toLower) hascii hc hd
  · unfold Char.toLower
    rw [dif_neg]
    intro hupper
    have hmost : c.val.toNat ≤ 'Z'.val.toNat := UInt32.le_iff_toNat_le.1 hupper.2
    exact hc (Nat.lt_of_le_of_lt hmost (by decide))

lemma isWord_of_isQuote (h : isQuote c) : isWord c = false :=
  isQuote_induction (by decide) h

lemma map_fold_of_toLower {letters : List Char} (hm : m.map Char.toLower = letters)
    (hletters : ∀ c ∈ letters, c.isLower) : m.map fold = letters := by
  rw [← hm]
  refine map_congr_left fun c hc => ?_
  have hlower : c.toLower.isLower := hletters _ (hm ▸ mem_map_of_mem hc)
  unfold fold
  rw [if_pos (ascii_of_toLower hlower)]

lemma isWordText_of_toLower {letters : List Char} (hm : m.map Char.toLower = letters)
    (hletters : ∀ c ∈ letters, c.isLower) : IsWordText m := by
  have hascii : ∀ n < 0x80, (Char.ofNat n).toLower.isLower →
      isWord (Char.ofNat n) := by decide
  intro c hc
  have hlower : c.toLower.isLower := hletters _ (hm ▸ mem_map_of_mem hc)
  exact ascii_induction (P := fun c => c.toLower.isLower → isWord c) hascii
    (ascii_of_toLower hlower) hlower

lemma isAlphabetic_of_toLower (h : c.toLower.isLower) : isAlphabetic c := by
  have hletter : ∀ n < 0x80, (Char.ofNat n).toLower.isLower →
      isAlphabetic (Char.ofNat n) := by decide
  exact ascii_induction (P := fun c => c.toLower.isLower → isAlphabetic c) hletter
    (ascii_of_toLower h) h

/-- A word at the start is part of the run there. -/
lemma split_of_word {rest w b : List Char} (h : w ++ b = m ++ rest) (hm : IsWordText m)
    (hb : startsWord b = false) : ∃ w', w = m ++ w' ∧ rest = w' ++ b := by
  rcases append_eq_append_iff.1 h with ⟨w', rfl, hrest⟩ | ⟨m', rfl, rfl⟩
  · obtain _ | ⟨c, w'⟩ := w'
    · exact ⟨[], by simp, by simpa using hrest.symm⟩
    · rw [hrest] at hb
      exact absurd (hm c (by simp)) (Bool.eq_false_iff.1 hb)
  · exact ⟨m', rfl, rfl⟩

lemma isAlphabetic_of_fold {d : Char} (hc : isCapital c) (h : fold d = fold c)
    (hd : isAlphabetic d = false) : isAlphabetic c = false := by
  have hlower : ∀ n < 0x80, isCapital (Char.ofNat n) → isAlphabetic (Char.ofNat n) →
      (fold (Char.ofNat n)).toNat ≠ 0 ∧ (fold (Char.ofNat n)).toNat < 0x80 ∧
        (fold (Char.ofNat n)).isLower := by decide
  have hback : ∀ n < 0x80, (fold (Char.ofNat n)).isLower →
      isAlphabetic (Char.ofNat n) := by decide
  by_contra hletter
  obtain ⟨hzero, hascii, hfold⟩ := ascii_induction (P := fun c => isCapital c →
    isAlphabetic c → (fold c).toNat ≠ 0 ∧ (fold c).toNat < 0x80 ∧ (fold c).isLower)
    hlower (isNamePart_ascii (isNamePart_of_isCapital hc)) hc (Bool.not_eq_false _ ▸ hletter)
  refine Bool.eq_false_iff.1 hd ?_
  -- beyond ASCII only the long s and the Kelvin sign are equal to letters ignoring case
  rcases ascii_of_fold h hzero hascii with hd' | rfl | rfl
  · exact ascii_induction (P := fun d => (fold d).isLower → isAlphabetic d) hback hd'
      (h ▸ hfold)
  · decide +kernel
  · decide +kernel

lemma SameFolded.split {y t : List Char} (h : SameFolded (m ++ y) t) :
    ∃ m' y', t = m' ++ y' ∧ SameFolded m m' ∧ SameFolded y y' := by
  unfold SameFolded at h
  rw [map_append] at h
  obtain ⟨m', y', rfl, hm, hy⟩ := map_eq_append_iff.1 h.symm
  exact ⟨m', y', rfl, hm.symm, hy.symm⟩

end Text

namespace WordEdit

variable {e : WordEdit} {s t before current key letters : List Char}

/-! ## The text ahead -/

/-- The second text is the first with some references written anew. -/
inductive Rewrites (e : WordEdit) : (s t : List Char) → Prop
  | nil : Rewrites e [] []
  | gap {s t : List Char} {c : Char} (hc : isWord c = false) (h : Rewrites e s t) :
      Rewrites e (c :: s) (c :: t)
  | word {s t w : List Char} (hw : IsWordText w) (hne : w ≠ []) (hs : startsWord s = false)
      (h : Rewrites e s t) : Rewrites e (w ++ s) (w ++ t)
  | path {s t ref : List Char} (href : SameFolded ref e.word) (hs : startsWord s = false)
      (h : Rewrites e s t) : Rewrites e (ref ++ s) (e.written ++ t)

/-- What a position can hold. -/
lemma Rewrites.inv (h : Rewrites e s t) :
    s = [] ∧ t = [] ∨
      (∃ c s' t', s = c :: s' ∧ t = c :: t' ∧ isWord c = false ∧ Rewrites e s' t') ∨
      (∃ w s' t', s = w ++ s' ∧ t = w ++ t' ∧ IsWordText w ∧ w ≠ [] ∧ startsWord s' = false ∧
        Rewrites e s' t') ∨
      ∃ ref s' t', s = ref ++ s' ∧ t = e.written ++ t' ∧ SameFolded ref e.word ∧
        startsWord s' = false ∧ Rewrites e s' t' := by
  cases h with
  | nil => exact .inl ⟨rfl, rfl⟩
  | gap hc h => exact .inr (.inl ⟨_, _, _, rfl, rfl, hc, h⟩)
  | word hw hne hs h => exact .inr (.inr (.inl ⟨_, _, _, rfl, rfl, hw, hne, hs, h⟩))
  | path href hs h => exact .inr (.inr (.inr ⟨_, _, _, rfl, rfl, href, hs, h⟩))

/-- What an edit does with a word. -/
lemma Rewrites.word_inv {w : List Char} (h : Rewrites e (w ++ s) t) (hw : IsWordText w)
    (hne : w ≠ []) (hs : startsWord s = false) :
    (∃ t', t = w ++ t' ∧ Rewrites e s t') ∨
      ∃ ref s' t', w ++ s = ref ++ s' ∧ SameFolded ref e.word ∧ startsWord s' = false ∧
        t = e.written ++ t' ∧ Rewrites e s' t' := by
  have hstart := hw.startsWord hne s
  rcases h.inv with ⟨hnil, -⟩ | ⟨c, s', t', htext, -, hc, -⟩ |
    ⟨w', s', t', htext, rfl, hw', -, hs', h'⟩ | ⟨ref, s', t', htext, rfl, href, hs', h'⟩
  · exact absurd (append_eq_nil_iff.1 hnil).1 hne
  · rw [htext] at hstart
    exact absurd hstart (Bool.eq_false_iff.1 hc)
  · obtain ⟨rfl, rfl⟩ := word_unique htext hw hw' hs hs'
    exact .inl ⟨t', rfl, h'⟩
  · exact .inr ⟨ref, s', t', htext, href, hs', rfl, h'⟩

/-- What is in front of a gap may stay. -/
lemma Rewrites.keep {e : WordEdit} {s t : List Char} (h : Rewrites e s t)
    (hs : startsWord s = false) (m : List Char) : Rewrites e (m ++ s) (m ++ t) := by
  induction m using text_induction with
  | nil => exact h
  | gap c m hc ih => exact .gap hc ih
  | word w m hw hne hm ih =>
    rw [append_assoc, append_assoc]
    exact .word hw hne (startsWord_append hm hs) ih

/-! ## Going over a text -/

/-- No word goes on at a position. -/
def Fresh (before s : List Char) : Prop :=
  startsWord s = true → startsWord before = false

lemma fresh_of_not_startsWord (hs : startsWord s = false) : Fresh before s := by
  intro h
  rw [hs] at h
  cases h

/-- A text is gone over by characters between words, by words where nothing is found, and by
references. -/
lemma scan_induction (hword : WholeWord e.word) {motive : List Char → List Char → Prop}
    (nil : ∀ before, motive before [])
    (gap : ∀ before c s, isWord c = false → motive (c :: before) s → motive before (c :: s))
    (word : ∀ before w s, startsWord before = false → IsWordText w → w ≠ [] →
      startsWord s = false → (∀ after, ¬Reads e.word (w ++ s) after) →
      motive (w.reverse ++ before) s → motive before (w ++ s))
    (found : ∀ before ref s, startsWord before = false → SameFolded ref e.word →
      startsWord s = false → motive (ref.reverse ++ before) s → motive before (ref ++ s))
    (hfresh : Fresh before s) : motive before s := by
  -- a reference can be longer than the word at its start, so the induction is on the length
  induction hlen : s.length using Nat.strongRecOn generalizing before s with
  | _ n ih =>
    subst hlen
    obtain rfl | ⟨c, s', rfl, hc⟩ | ⟨w, s', rfl, hw, hne, hs'⟩ := text_cases s
    · exact nil before
    · exact gap before c s' hc (ih _ (Nat.lt_succ_self _) (fun _ => hc) rfl)
    · have hbefore := hfresh (hw.startsWord hne s')
      by_cases hreads : ∃ after, Reads e.word (w ++ s') after
      · obtain ⟨after, hafter, ref, htext, href⟩ := hreads
        have hlength : 0 < ref.length := by
          rw [href.length_eq]
          exact length_pos_iff.2 hword.ne_nil
        rw [htext] at ih ⊢
        refine found before ref after hbefore href hafter ?_
        refine ih _ ?_ (fresh_of_not_startsWord hafter) rfl
        rw [length_append]
        omega
      · have hlength := length_pos_iff.2 hne
        refine word before w s' hbefore hw hne hs' (not_exists.1 hreads) ?_
        refine ih _ ?_ (fresh_of_not_startsWord hs') rfl
        rw [length_append]
        omega

section

variable {e : WordEdit} (hword : WholeWord e.word) {before s : List Char}

include hword

/-- Where an edit finds nothing, a word is kept. -/
lemma run_word {w : List Char} (hw : IsWordText w) (hnone : ∀ after, ¬Reads e.word (w ++ s) after) :
    substituteFrom e.rule 0 before (w ++ s) =
      w ++ substituteFrom e.rule 0 (w.reverse ++ before) s := by
  refine substituteFrom_word hword hw fun after hfound => ?_
  rw [afterWord?_eq_none hword hnone] at hfound
  cases hfound

/-- Where an edit finds a reference, the reference or its path is written. -/
lemma run_found {ref : List Char} (hbefore : startsWord before = false)
    (href : SameFolded ref e.word) (hs : startsWord s = false) :
    substituteFrom e.rule 0 before (ref ++ s) =
      (if e.accept before s then e.written else ref) ++
        substituteFrom e.rule 0 (ref.reverse ++ before) s :=
  substituteFrom_found hword ((afterWord?_iff_reads hword hbefore).2 ⟨hs, ref, rfl, href⟩)

/-- An edit writes some of its references anew. -/
lemma rewrites_run (hfresh : Fresh before s) : Rewrites e s (substituteFrom e.rule 0 before s) := by
  refine scan_induction (motive := fun before s =>
    Rewrites e s (substituteFrom e.rule 0 before s)) hword ?_ ?_ ?_ ?_ hfresh
  · intro before
    unfold rule
    rw [substituteFrom_nil hword]
    exact .nil
  · intro before c s hc ih
    unfold rule at ih ⊢
    rw [substituteFrom_between hword hc]
    exact .gap hc ih
  · intro before w s _ hw hne hs hnone ih
    rw [run_word hword hw hnone]
    exact .word hw hne hs ih
  · intro before ref s hbefore href hs ih
    rw [run_found hword hbefore href hs]
    split
    · exact .path href hs ih
    · exact ih.keep hs ref

end

/-! ## Texts that are settled -/

/-- From left to right, an edit finds only words that it does not accept. -/
inductive Settled (e : WordEdit) : (before s : List Char) → Prop
  | nil {before : List Char} : Settled e before []
  | gap {before s : List Char} {c : Char} (hc : isWord c = false) (h : Settled e (c :: before) s) :
      Settled e before (c :: s)
  | word {before s w : List Char} (hw : IsWordText w) (hne : w ≠ []) (hs : startsWord s = false)
      (hnone : ∀ after, ¬Reads e.word (w ++ s) after) (h : Settled e (w.reverse ++ before) s) :
      Settled e before (w ++ s)
  | pass {before s ref : List Char} (href : SameFolded ref e.word) (hs : startsWord s = false)
      (hreject : e.accept before s = false) (h : Settled e (ref.reverse ++ before) s) :
      Settled e before (ref ++ s)

/-- A settled text is left as it is. -/
lemma Settled.run_eq (hword : WholeWord e.word) (h : Settled e before s) (hfresh : Fresh before s) :
    substituteFrom e.rule 0 before s = s := by
  induction h with
  | nil => exact substituteFrom_nil hword _
  | gap hc _ ih =>
    unfold rule at ih ⊢
    rw [substituteFrom_between hword hc, ih fun _ => hc]
  | word hw hne hs hnone _ ih => rw [run_word hword hw hnone, ih (fresh_of_not_startsWord hs)]
  | pass href hs hreject _ ih =>
    have hbefore := hfresh (href.startsWord hword.first _)
    rw [run_found hword hbefore href hs, hreject, ih (fresh_of_not_startsWord hs)]
    rfl

/-! ## The text behind -/

/-- Read backwards, the second text is the first with some references anew. -/
inductive Behind (e : WordEdit) : (before current : List Char) → Prop
  | nil : Behind e [] []
  | gap {before current : List Char} {c : Char} (hc : isWord c = false)
      (h : Behind e before current) : Behind e (c :: before) (c :: current)
  | word {before current w : List Char} (hw : IsWordText w) (hne : w ≠ [])
      (hbefore : startsWord before = false) (h : Behind e before current) :
      Behind e (w.reverse ++ before) (w.reverse ++ current)
  | path {before current ref : List Char} (href : SameFolded ref e.word)
      (hbefore : startsWord before = false) (h : Behind e before current) :
      Behind e (ref.reverse ++ before) (e.written.reverse ++ current)

/-- What stands before a position. -/
lemma Behind.inv (h : Behind e before current) :
    before = [] ∧ current = [] ∨
      (∃ c before' current', before = c :: before' ∧ current = c :: current' ∧ isWord c = false ∧
        Behind e before' current') ∨
      (∃ w before' current', before = w.reverse ++ before' ∧ current = w.reverse ++ current' ∧
        IsWordText w ∧ w ≠ [] ∧ startsWord before' = false ∧ Behind e before' current') ∨
      ∃ ref before' current', before = ref.reverse ++ before' ∧
        current = e.written.reverse ++ current' ∧ SameFolded ref e.word ∧
        startsWord before' = false ∧ Behind e before' current' := by
  cases h with
  | nil => exact .inl ⟨rfl, rfl⟩
  | gap hc h => exact .inr (.inl ⟨_, _, _, rfl, rfl, hc, h⟩)
  | word hw hne hs h => exact .inr (.inr (.inl ⟨_, _, _, rfl, rfl, hw, hne, hs, h⟩))
  | path href hs h => exact .inr (.inr (.inr ⟨_, _, _, rfl, rfl, href, hs, h⟩))

/-- A text has been kept behind what an edit has written. -/
lemma Behind.keep {e : WordEdit} {before current : List Char} (h : Behind e before current)
    {m : List Char} (hfresh : Fresh before m) :
    Behind e (m.reverse ++ before) (m.reverse ++ current) := by
  induction m using text_induction generalizing before current with
  | nil => exact h
  | gap c m hc ih =>
    have hrest := ih (.gap hc h) fun _ => hc
    rwa [reverse_cons, append_assoc, append_assoc]
  | word w m hw hne hm ih =>
    have hbefore := hfresh (hw.startsWord hne m)
    have hrest := ih (.word hw hne hbefore h) (fresh_of_not_startsWord hm)
    rwa [reverse_append, append_assoc, append_assoc]

/-- What has been gone over stands behind. -/
lemma Rewrites.behind (hword : WholeWord e.word) (h : Rewrites e s t)
    (hbehind : Behind e before current) (hfresh : Fresh before s) :
    Behind e (s.reverse ++ before) (t.reverse ++ current) := by
  induction h generalizing before current with
  | nil => exact hbehind
  | gap hc _ ih =>
    have hrest := ih (.gap hc hbehind) fun _ => hc
    simpa using hrest
  | word hw hne hs _ ih =>
    have hbefore := hfresh (hw.startsWord hne _)
    have hrest := ih (.word hw hne hbefore hbehind) (fresh_of_not_startsWord hs)
    simpa using hrest
  | path href hs _ ih =>
    have hbefore := hfresh (href.startsWord hword.first _)
    have hrest := ih (.path href hbefore hbehind) (fresh_of_not_startsWord hs)
    simpa using hrest

/-! ## Edits that write key paths -/

/-- What stands in front of the key in a key path. -/
def arrow : List Char :=
  ['K', 'E', 'Y', '-', '>']

/-- Capitals, digits and underscores, but not the word of key paths. -/
structure IsKeyText (key : List Char) : Prop where
  ne_nil : key ≠ []
  capital : ∀ c ∈ key, isCapital c = true
  ne_key : key ≠ ['K', 'E', 'Y']

lemma IsKeyText.isWordText (h : IsKeyText key) : IsWordText key :=
  fun c hc => isWord_of_isNamePart (isNamePart_of_isCapital (h.capital c hc))

lemma IsKeyText.namePart (h : IsKeyText key) : ∀ c ∈ key, isNamePart c :=
  fun c hc => isNamePart_of_isCapital (h.capital c hc)

/-- Key names that agree up to case are equal. -/
lemma IsKeyText.eq_of_sameFolded {key' : List Char} (h : IsKeyText key) (h' : IsKeyText key')
    (hsame : SameFolded key key') : key = key' :=
  hsame.eq_of_capital h.capital h'.capital

/-- A key name is not the word of key paths. -/
lemma IsKeyText.not_sameFolded_key (h : IsKeyText key) : ¬SameFolded key ['K', 'E', 'Y'] := by
  intro hsame
  exact h.ne_key (hsame.eq_of_capital h.capital (all_eq_true.1 (by decide)))

/-- The edit writes the path of a key for whole words. -/
structure WritesPath (e : WordEdit) (key : List Char) : Prop where
  whole : WholeWord e.word
  written : e.written = arrow ++ key
  isKey : IsKeyText key

section

variable {e : WordEdit} {key : List Char} (he : WritesPath e key) {before current s t : List Char}

variable {c : Char}

include he

lemma WritesPath.startsWord_reverse (x : List Char) : startsWord (e.written.reverse ++ x) := by
  rw [he.written, reverse_append, append_assoc]
  exact he.isKey.isWordText.reverse.startsWord (reverse_ne_nil_iff.2 he.isKey.ne_nil) _

lemma Behind.head?_eq (h : Behind e before current) (hbefore : startsWord before = false) :
    current.head? = before.head? := by
  cases h with
  | nil => rfl
  | gap => rfl
  | word hw hne =>
    rw [hw.reverse.startsWord (reverse_ne_nil_iff.2 hne)] at hbefore
    cases hbefore
  | path href =>
    rw [href.reverse.startsWord he.whole.last] at hbefore
    cases hbefore

/-- A gap before is kept, and so is what is before it. -/
lemma Behind.of_gap (h : Behind e (c :: before) current) (hc : isWord c = false) :
    ∃ current', current = c :: current' ∧ Behind e before current' := by
  have hstart : startsWord (c :: before) = false := hc
  rcases h.inv with ⟨hnil, -⟩ | ⟨d, b, current', hb, rfl, -, h'⟩ |
    ⟨w, b, current', hb, -, hw, hne, -⟩ | ⟨ref, b, current', hb, -, href, -⟩
  · cases hnil
  · cases hb
    exact ⟨current', rfl, h'⟩
  · rw [hb, hw.reverse.startsWord (reverse_ne_nil_iff.2 hne)] at hstart
    cases hstart
  · rw [hb, href.reverse.startsWord he.whole.last] at hstart
    cases hstart

/-- An edit keeps whether a word comes first. -/
lemma Rewrites.startsWord_eq (h : Rewrites e s t) : startsWord t = startsWord s := by
  cases h with
  | nil => rfl
  | gap => rfl
  | word hw hne => rw [hw.startsWord hne, hw.startsWord hne]
  | path href =>
    rw [href.startsWord he.whole.first, he.written]
    rfl

lemma Rewrites.of_nil (h : Rewrites e [] t) : t = [] := by
  rcases h.inv with ⟨-, ht⟩ | ⟨_, _, _, hs, -⟩ | ⟨w, _, _, hs, -, -, hne, -⟩ |
    ⟨ref, _, _, hs, -, href, -⟩
  · exact ht
  · cases hs
  · exact absurd (append_eq_nil_iff.1 hs.symm).1 hne
  · have hlength := href.length_eq
    rw [(append_eq_nil_iff.1 hs.symm).1] at hlength
    exact absurd (eq_nil_of_length_eq_zero hlength.symm) he.whole.ne_nil

/-- A gap is kept, and the edit goes on behind it. -/
lemma Rewrites.gap_inv (h : Rewrites e (c :: s) t) (hc : isWord c = false) :
    ∃ t', t = c :: t' ∧ Rewrites e s t' := by
  have hstart : startsWord (c :: s) = false := hc
  rcases h.inv with ⟨hnil, -⟩ | ⟨d, s', t', hs, rfl, -, h'⟩ |
    ⟨w, s', t', hs, -, hw, hne, -⟩ | ⟨ref, s', t', hs, -, href, -⟩
  · cases hnil
  · cases hs
    exact ⟨t', rfl, h'⟩
  · rw [hs, hw.startsWord hne] at hstart
    cases hstart
  · rw [hs, href.startsWord he.whole.first] at hstart
    cases hstart

/-- A gap in front has been there before. -/
lemma Rewrites.of_gap (h : Rewrites e s (c :: t)) (hc : isWord c = false) :
    ∃ s', s = c :: s' ∧ Rewrites e s' t := by
  have hstart : startsWord s = false := by
    rw [← h.startsWord_eq he]
    exact hc
  obtain rfl | ⟨d, s', rfl, hd⟩ | ⟨w, s', rfl, hw, hne, -⟩ := text_cases s
  · cases h.of_nil he
  · obtain ⟨t', ht, h'⟩ := h.gap_inv he hd
    cases ht
    exact ⟨s', rfl, h'⟩
  · rw [hw.startsWord hne] at hstart
    cases hstart

lemma Rewrites.head?_eq (h : Rewrites e s t) (hs : startsWord s = false) : t.head? = s.head? := by
  cases h with
  | nil => rfl
  | gap => rfl
  | word hw hne =>
    rw [hw.startsWord hne] at hs
    cases hs
  | path href =>
    rw [href.startsWord he.whole.first] at hs
    cases hs

omit he in
lemma isWordText_key : IsWordText ['K', 'E', 'Y'] :=
  all_eq_true.1 (by decide)

/-- A word other than the one of key paths has been kept. -/
lemma Rewrites.of_word {w : List Char} (h : Rewrites e s (w ++ t)) (hw : IsWordText w)
    (hne : w ≠ []) (hkey : ¬SameFolded w ['K', 'E', 'Y']) (ht : startsWord t = false) :
    ∃ s', s = w ++ s' ∧ startsWord s' = false ∧ Rewrites e s' t := by
  have hstart := hw.startsWord hne t
  rcases h.inv with ⟨-, hnil⟩ | ⟨c, s', t', -, htext, hc, -⟩ |
    ⟨w', s', t', rfl, htext, hw', -, hs', h'⟩ | ⟨ref, s', t', -, htext, -⟩
  · exact absurd (append_eq_nil_iff.1 hnil).1 hne
  · rw [htext] at hstart
    exact absurd hstart (Bool.eq_false_iff.1 hc)
  · have ht' : startsWord t' = false := (h'.startsWord_eq he).trans hs'
    obtain ⟨rfl, rfl⟩ := word_unique htext hw hw' ht ht'
    exact ⟨s', rfl, hs', h'⟩
  · rw [he.written] at htext
    have hlead : w ++ t = ['K', 'E', 'Y'] ++ ('-' :: '>' :: (key ++ t')) := htext
    obtain ⟨rfl, -⟩ := word_unique hlead hw isWordText_key ht rfl
    exact absurd rfl hkey

end

/-! ## Words that are passed over -/

/-- A path ends with given letters if its reference does, and with no others before them. -/
def KeepsTail (e : WordEdit) (letters : List Char) : Prop :=
  ∀ ref m rest b, SameFolded ref e.word → startsWord b = false → ref.reverse ++ b = m ++ rest →
    m.map Char.toLower = letters → ∃ m' rest', e.written.reverse = m' ++ rest' ∧
      m'.map Char.toLower = letters ∧ rest' ≠ [] ∧
      (rest.head?.any isAlphabetic = false → rest'.head?.any isAlphabetic = false)

/-- The letters that a text ends with. -/
lemma Behind.tail (he : WritesPath e key) {m rest : List Char} (hne : letters ≠ [])
    (hletters : ∀ c ∈ letters, c.isLower) (hkeep : KeepsTail e letters)
    (h : Behind e (m ++ rest) current) (hm : m.map Char.toLower = letters) :
    ∃ m' rest', current = m' ++ rest' ∧ m'.map Char.toLower = letters ∧
      (rest.head?.any isAlphabetic = false → rest'.head?.any isAlphabetic = false) := by
  have hword := isWordText_of_toLower hm hletters
  have hmne : m ≠ [] := by
    rintro rfl
    exact hne hm.symm
  have hstart := hword.startsWord hmne rest
  rcases h.inv with ⟨hnil, -⟩ | ⟨c, b, current', htext, -, hc, -⟩ |
    ⟨w, b, current', htext, rfl, hw, -, hb, h'⟩ | ⟨ref, b, current', htext, rfl, href, hb, -⟩
  · exact absurd (append_eq_nil_iff.1 hnil).1 hmne
  · rw [htext] at hstart
    exact absurd hstart (Bool.eq_false_iff.1 hc)
  · obtain ⟨w', hw', rfl⟩ := split_of_word htext.symm hword hb
    refine ⟨m, w' ++ current', by rw [hw', append_assoc], hm, fun hrest => ?_⟩
    cases w' with
    | nil =>
      rw [nil_append] at hrest ⊢
      rwa [h'.head?_eq he hb]
    | cons d w' => exact hrest
  -- the letters end a reference, and so they end its path
  · obtain ⟨m', rest', hwritten, hm', hne', hhead⟩ := hkeep ref m rest b href hb htext.symm hm
    refine ⟨m', rest' ++ current', by rw [hwritten, append_assoc], hm', fun hrest => ?_⟩
    obtain ⟨d, rest', rfl⟩ := exists_cons_of_ne_nil hne'
    exact hhead hrest

/-- The lead of a reference: nothing, or an alias and a full stop. -/
def IsLead (lead : List Char) : Prop :=
  lead = [] ∨ ∃ a, (a = 'o' ∨ a = 'i') ∧ lead = [a, '.']

/-- The edit for a key, whose references have a given lead. -/
def ofKey (lead key : List Char) : WordEdit where
  word := lead ++ key
  written := arrow ++ key
  accept before after := unprefixed before after && (!lead.isEmpty || !renames before)

/-- The edit for the bare word of key paths. -/
def ofLone (key : List Char) : WordEdit where
  word := ['K', 'E', 'Y']
  written := arrow ++ key
  accept before after := !(isPrefixOf ['-', '>'] after) && !renames before

/-- A reference has a lead and a key. -/
lemma reference_split {lead ref : List Char} (hlead : IsLead lead)
    (href : SameFolded ref (lead ++ key)) : ∃ l y, ref = l ++ y ∧ SameFolded l lead ∧
      SameFolded y key ∧ ∀ b, startsWord b = false → startsWord (l.reverse ++ b) = false := by
  obtain ⟨l, y, rfl, hl, hy⟩ := href.symm.split
  refine ⟨l, y, rfl, hl.symm, hy.symm, fun b hb => ?_⟩
  rcases hlead with rfl | ⟨a, -, rfl⟩
  · obtain rfl := eq_nil_of_length_eq_zero hl.length_eq.symm
    exact hb
  · obtain _ | ⟨x, _ | ⟨d, _ | ⟨z, l⟩⟩⟩ := l
    · cases hl.length_eq
    · cases hl.length_eq
    · obtain rfl := eq_dot_of_fold (cons.inj (cons.inj hl).2).1.symm
      exact (by decide : isWord '.' = false)
    · cases hl.length_eq

/-- The path of a key ends with what the key ends with. -/
lemma keepsTail_ofKey {lead : List Char} (hlead : IsLead lead) (hkey : IsKeyText key)
    (hletters : ∀ c ∈ letters, c.isLower) : KeepsTail (ofKey lead key) letters := by
  intro ref m rest b href hb htext hm
  have hword := isWordText_of_toLower hm hletters
  obtain ⟨l, y, rfl, -, hy, hbehind⟩ := reference_split hlead href
  rw [reverse_append, append_assoc] at htext
  obtain ⟨y', hy', rfl⟩ := split_of_word htext hword (hbehind b hb)
  have hreverse := hy.reverse
  rw [hy'] at hreverse
  obtain ⟨m', k', hk', hmm', hyk'⟩ := hreverse.split
  have hcapital : ∀ c ∈ key.reverse, isCapital c :=
    fun c hc => hkey.capital c (mem_reverse.1 hc)
  rw [hk'] at hcapital
  refine ⟨m', k' ++ arrow.reverse, ?_, ?_, by simp [arrow], fun hrest => ?_⟩
  · unfold ofKey
    rw [reverse_append, hk', append_assoc]
  · -- capitals are folded to small letters
    have hfold : m'.map Char.toLower = m'.map fold := by
      refine map_congr_left fun c hc => ?_
      have hascii := isNamePart_ascii
        (isNamePart_of_isCapital (hcapital c (mem_append_left _ hc)))
      unfold fold
      rw [if_pos hascii]
    rw [hfold, ← hmm', map_fold_of_toLower hm hletters]
  · obtain _ | ⟨d, y'⟩ := y'
    · rw [eq_nil_of_length_eq_zero hyk'.length_eq.symm]
      decide
    · obtain _ | ⟨c, k'⟩ := k'
      · cases hyk'.length_eq
      · exact isAlphabetic_of_fold (hcapital c (by simp)) (cons.inj hyk').1 hrest

/-- The edit of the bare word keeps AS at an end. -/
lemma keepsTail_ofLone (key : List Char) : KeepsTail (ofLone key) ['s', 'a'] := by
  intro ref m rest b href _ htext hm
  have hreverse : SameFolded ref.reverse ['Y', 'E', 'K'] := href.reverse
  have hfold := map_fold_of_toLower hm (all_eq_true.1 (by decide))
  obtain ⟨c, ref', href'⟩ : ∃ c ref', ref.reverse = c :: ref' := by
    refine exists_cons_of_ne_nil fun hnil => ?_
    rw [hnil] at hreverse
    cases hreverse.length_eq
  obtain _ | ⟨d, m⟩ := m
  · cases hm
  · -- its last letter would be both a y and an s
    rw [href'] at hreverse htext
    obtain ⟨rfl, -⟩ := cons.inj htext
    have hy := (cons.inj hreverse).1
    have hs := (cons.inj hfold).1
    rw [hs] at hy
    exact absurd hy (by decide)

lemma dropWhile_isBlank_of_startsWord (h : startsWord s) : s.dropWhile isBlank = s := by
  obtain _ | ⟨c, s⟩ := s
  · rfl
  · exact dropWhile_cons_of_neg (Bool.eq_false_iff.1 (Placement.isBlank_of_isWord h))

/-- White space before may be dropped. -/
lemma Behind.dropWhile (he : WritesPath e key) (h : Behind e before current) :
    Behind e (before.dropWhile isBlank) (current.dropWhile isBlank) := by
  induction h with
  | nil => exact .nil
  | @gap before current c hc h ih =>
    by_cases hblank : isBlank c
    · rwa [dropWhile_cons_of_pos hblank, dropWhile_cons_of_pos hblank]
    · rw [dropWhile_cons_of_neg hblank, dropWhile_cons_of_neg hblank]
      exact .gap hc h
  | word hw hne hbefore h =>
    have hreverse := reverse_ne_nil_iff.2 hne
    rw [dropWhile_isBlank_of_startsWord (hw.reverse.startsWord hreverse _),
      dropWhile_isBlank_of_startsWord (hw.reverse.startsWord hreverse _)]
    exact .word hw hne hbefore h
  | path href hbefore h =>
    rw [dropWhile_isBlank_of_startsWord (href.reverse.startsWord he.whole.last _),
      dropWhile_isBlank_of_startsWord (he.startsWord_reverse _)]
    exact .path href hbefore h

/-- A new name in a text is one in the edited text. -/
lemma Behind.renames (he : WritesPath e key) (hkeep : KeepsTail e ['s', 'a'])
    (h : Behind e before current) (hbefore : renames before) : renames current := by
  have hsmall : ∀ c ∈ ['s', 'a'], c.isLower := all_eq_true.1 (by decide)
  unfold Text.renames at hbefore ⊢
  rw [beq_iff_eq] at hbefore ⊢
  have hparts := takeWhile_append_dropWhile (p := isAlphabetic) (l := before.dropWhile isBlank)
  have hdrop := h.dropWhile he
  rw [← hparts] at hdrop
  obtain ⟨m, rest, hcurrent, hm, hhead⟩ := hdrop.tail he (cons_ne_nil _ _) hsmall hkeep hbefore
  have hletters : ∀ c ∈ m, isAlphabetic c :=
    fun c hc => isAlphabetic_of_toLower (hsmall _ (hm ▸ mem_map_of_mem hc))
  rw [hcurrent, takeWhile_run hletters (hhead (head?_dropWhile_any _ _)), hm]

/-- A text that ends with letters and marks. -/
lemma endsWithName_iff {marks : List Char} {ending : String}
    (hending : ending.toList.reverse.map Char.toLower = marks ++ letters)
    (hmarks : ∀ c ∈ marks, c.isLower = false ∧ c.toLower = c) :
    endsWithName before ending ↔
      ∃ m rest, before = marks ++ (m ++ rest) ∧ m.map Char.toLower = letters := by
  unfold endsWithName
  rw [hending, isPrefixOf_iff_prefix]
  constructor
  · rintro ⟨rest, hrest⟩
    obtain ⟨lead, tail, rfl, hlead, -⟩ := map_eq_append_iff.1 hrest.symm
    obtain ⟨first, m, rfl, hfirst, hm⟩ := map_eq_append_iff.1 hlead
    refine ⟨m, tail, ?_, hm⟩
    have hself : first.map Char.toLower = first.map id := by
      refine map_congr_left fun c hc => ?_
      exact (eq_of_toLower rfl (hmarks _ (hfirst ▸ mem_map_of_mem hc)).1).symm
    rw [← hfirst, hself, map_id, append_assoc]
  · rintro ⟨m, rest, rfl, rfl⟩
    have hself : marks.map Char.toLower = marks.map id :=
      map_congr_left fun c hc => (hmarks c hc).2
    refine ⟨rest.map Char.toLower, ?_⟩
    rw [map_append, map_append, hself, map_id, append_assoc]

/-- Characters between words have been kept. -/
lemma Behind.of_gaps (he : WritesPath e key) {marks : List Char}
    (hmarks : ∀ c ∈ marks, isWord c = false) (h : Behind e (marks ++ before) current) :
    ∃ current', current = marks ++ current' ∧ Behind e before current' := by
  induction marks generalizing current with
  | nil => exact ⟨current, rfl, h⟩
  | cons c marks ih =>
    obtain ⟨hc, hrest⟩ := forall_mem_cons.1 hmarks
    obtain ⟨current₁, rfl, h₁⟩ := h.of_gap he hc
    obtain ⟨current₂, rfl, h₂⟩ := ih hrest h₁
    exact ⟨current₂, rfl, h₂⟩

/-- An ending of a text, in letters and marks, is one of the edited text. -/
lemma Behind.endsWithName (he : WritesPath e key) (marks letters : List Char) {ending : String}
    (hending : ending.toList.reverse.map Char.toLower = marks ++ letters)
    (hmarks : ∀ c ∈ marks, (c.isLower = false ∧ c.toLower = c) ∧ isWord c = false)
    (hne : letters ≠ []) (hletters : ∀ c ∈ letters, c.isLower) (hkeep : KeepsTail e letters)
    (h : Behind e before current) (hbefore : endsWithName before ending) :
    endsWithName current ending := by
  have hiff : ∀ {text : List Char}, Text.endsWithName text ending ↔
      ∃ m rest, text = marks ++ (m ++ rest) ∧ m.map Char.toLower = letters :=
    endsWithName_iff hending fun c hc => (hmarks c hc).1
  obtain ⟨m, rest, rfl, hm⟩ := hiff.1 hbefore
  obtain ⟨current, rfl, hrest⟩ := h.of_gaps he fun c hc => (hmarks c hc).2
  obtain ⟨m', rest', rfl, hm', -⟩ := hrest.tail he hne hletters hkeep hm
  exact hiff.2 ⟨m', rest', rfl, hm'⟩

/-- A key path, or a quoted word, in a text is one in the edited text. -/
lemma Behind.unprefixed (he : WritesPath e key) (hkeep : KeepsTail e ['y', 'e', 'k'])
    {after after' : List Char} (h : Behind e before current) (hafter : after'.head? = after.head?)
    (hbefore : unprefixed before after = false) : unprefixed current after' = false := by
  have hsmall : ∀ c ∈ ['y', 'e', 'k'], c.isLower := all_eq_true.1 (by decide)
  have hmarks : ∀ c ∈ ['>', '-', '.'], (c.isLower = false ∧ c.toLower = c) ∧ isWord c = false := by
    simp only [forall_mem_cons]
    exact ⟨by decide, by decide, by decide, forall_mem_nil _⟩
  have harrow : Text.endsWithName before "KEY->" →
      Text.endsWithName current "KEY->" :=
    h.endsWithName he ['>', '-'] ['y', 'e', 'k'] (by decide)
      (fun c hc => hmarks c (mem_append_left ['.'] hc)) (cons_ne_nil _ _) hsmall hkeep
  have hdot : Text.endsWithName before "key." → Text.endsWithName current "key." :=
    h.endsWithName he ['.'] ['y', 'e', 'k'] (by decide)
      (fun c hc => hmarks c (mem_append_right ['>', '-'] hc)) (cons_ne_nil _ _) hsmall
      hkeep
  have hquote : before.head?.any isQuote → current.head?.any isQuote := by
    intro hq
    have hstart : startsWord before = false := by
      obtain _ | ⟨c, before⟩ := before
      · rfl
      · exact isWord_of_isQuote hq
    rwa [h.head?_eq he hstart]
  unfold Text.unprefixed at hbefore ⊢
  rw [hafter]
  simp only [Bool.not_eq_false', Bool.or_eq_true] at hbefore ⊢
  exact hbefore.imp_left (.imp (.imp harrow hdot) hquote)

end WordEdit

end StreamQuery
