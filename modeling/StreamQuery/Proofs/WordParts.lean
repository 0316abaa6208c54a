import StreamQuery.Proofs.KeyPathsOnce
import StreamQuery.Proofs.QuoteLocal

/-!
# Words between blanks

An edit that writes a text for a whole word without blanks does to a clause what it does to the
parts of the clause between two blanks.  It does not look across a blank to what follows
(`substituteFrom_ahead`), and what it sees behind a blank is at most the word AS
(`substituteFrom_behind`).

An edit that writes a longer text than it takes shows by the length of the result whether it has
found anything (`run_eq_or_longer`).  So a run of such edits leaves a text alone exactly if each of
them does (`runAll_eq_iff`).
-/

namespace StreamQuery

open Text List

/-! ## Blanks -/

namespace Text

lemma eq_blank_of_fold {c : Char} (h : fold c = fold ' ') : c = ' ' :=
  eq_of_fold_sign (by decide) (by decide) (by decide) h

lemma SameFolded.not_mem {s t : List Char} (h : SameFolded s t) {c : Char}
    (hc : ∀ d, fold d = fold c → d = c) (ht : c ∉ t) : c ∉ s := by
  intro hs
  have hfold : fold c ∈ t.map fold := by
    rw [← show s.map fold = t.map fold from h]
    exact mem_map.2 ⟨c, hs, rfl⟩
  obtain ⟨d, hd, hsame⟩ := mem_map.1 hfold
  exact ht (hc d hsame ▸ hd)

lemma startsWord_blank (u v : List Char) : startsWord (u ++ ' ' :: v) = startsWord u := by
  cases u with
  | nil => rfl
  | cons c u => rfl

/-- An ending without blanks is found behind a blank or not at all. -/
lemma endsWithName_blank {ending : String}
    (hending : ' ' ∉ ending.toList.reverse.map Char.toLower) (near far : List Char) :
    endsWithName (near ++ ' ' :: far) ending = endsWithName near ending := by
  unfold endsWithName
  rw [map_append, map_cons]
  exact isPrefixOf_append_cons hending _ _

lemma isQuote_blank (u v : List Char) :
    (u ++ ' ' :: v).head?.any isQuote = u.head?.any isQuote := by
  cases u with
  | nil => rfl
  | cons c u => rfl

/-- A reference stands alone in its part if it does in the text. -/
lemma unprefixed_blank (near far after rest : List Char) :
    unprefixed (near ++ ' ' :: far) after = unprefixed near after ∧
      unprefixed near (after ++ ' ' :: rest) = unprefixed near after := by
  unfold unprefixed
  rw [isQuote_blank, isQuote_blank, endsWithName_blank (by decide), endsWithName_blank (by decide)]
  exact ⟨rfl, rfl⟩

lemma takeWhile_blank (u v : List Char) :
    (u ++ ' ' :: v).takeWhile isAlphabetic = u.takeWhile isAlphabetic := by
  induction u with
  | nil =>
    rw [nil_append, takeWhile_cons, (by decide : isAlphabetic ' ' = false)]
    rfl
  | cons c u ih => rw [cons_append, takeWhile_cons, takeWhile_cons, ih]

lemma renames_blank (near : List Char) {far : List Char} (h : renames (' ' :: far) = false) :
    renames (near ++ ' ' :: far) = renames near := by
  induction near with
  | nil => exact h
  | cons c near ih =>
    cases hc : isBlank c with
    | true =>
      have hskip : ∀ s, renames (c :: s) = renames s := by
        intro s
        unfold renames
        rw [dropWhile_cons, hc]
        rfl
      rw [cons_append, hskip, hskip, ih]
    | false =>
      have hword : ∀ s, renames (c :: s) =
          (((c :: s).takeWhile isAlphabetic).map Char.toLower == ['s', 'a']) := by
        intro s
        unfold renames
        rw [dropWhile_cons, hc]
        rfl
      rw [cons_append, hword, hword, ← cons_append, takeWhile_blank]

/-- Induction along a text as an edit of a whole word reads it. -/
@[elab_as_elim]
lemma word_induction {word : List Char} (hword : WholeWord word)
    {motive : List Char → List Char → Prop} (nil : ∀ before, motive before [])
    (unfound : ∀ before c rest, afterWord? word before (c :: rest) = none →
      motive (c :: before) rest → motive before (c :: rest))
    (found : ∀ before m after, afterWord? word before (m ++ after) = some after →
      SameFolded m word → motive (m.reverse ++ before) after → motive before (m ++ after))
    (before s : List Char) : motive before s := by
  induction hn : s.length using Nat.strongRecOn generalizing before s with
  | _ n ih =>
    subst hn
    cases s with
    | nil => exact nil before
    | cons c s =>
      cases hfound : afterWord? word before (c :: s) with
      | none => exact unfound before c s hfound (ih s.length (Nat.lt_succ_self _) _ s rfl)
      | some after =>
        obtain ⟨-, -, m, hm, hsame⟩ := (afterWord?_eq_some_iff hword).1 hfound
        have hshorter : after.length < (c :: s).length := by
          have hpos := length_pos_iff.2 hword.ne_nil
          rw [hm, length_append, hsame.length_eq]
          omega
        rw [hm] at hfound ⊢
        exact found before m after hfound hsame (ih after.length hshorter _ after rfl)

end Text

/-! ## Edits of parts -/

namespace WordEdit

/-- An edit that writes more for a word, and sees only AS beyond a blank. -/
structure IsPathEdit (e : WordEdit) : Prop where
  whole : WholeWord e.word
  noBlank : ' ' ∉ e.word
  longer : e.word.length < e.written.length
  ahead : ∀ before after rest, e.accept before (after ++ ' ' :: rest) = e.accept before after
  behind : ∀ near far after, renames (' ' :: far) = false →
    e.accept (near ++ ' ' :: far) after = e.accept near after

variable {e : WordEdit}

namespace IsPathEdit

variable (he : e.IsPathEdit)

include he

lemma afterWord?_ahead (before a b : List Char) :
    afterWord? e.word before (a ++ ' ' :: b) =
      (afterWord? e.word before a).map (· ++ ' ' :: b) := by
  refine Option.ext fun after => ?_
  rw [Option.map_eq_some_iff, afterWord?_eq_some_iff he.whole]
  constructor
  · rintro ⟨hbefore, hafter, m, hm, hsame⟩
    have hblank : ' ' ∉ m := hsame.not_mem (fun d => eq_blank_of_fold) he.noBlank
    obtain ⟨a', rfl, rfl⟩ := split_before_mark hm hblank
    rw [startsWord_blank] at hafter
    exact ⟨a', (afterWord?_eq_some_iff he.whole).2 ⟨hbefore, hafter, m, rfl, hsame⟩, rfl⟩
  · rintro ⟨a', hfound, rfl⟩
    obtain ⟨hbefore, hafter, m, rfl, hsame⟩ := (afterWord?_eq_some_iff he.whole).1 hfound
    exact ⟨hbefore, by rw [startsWord_blank, hafter], m, by simp, hsame⟩

lemma afterWord?_behind (near far rest : List Char) :
    afterWord? e.word (near ++ ' ' :: far) rest = afterWord? e.word near rest := by
  refine Option.ext fun after => ?_
  rw [afterWord?_eq_some_iff he.whole, afterWord?_eq_some_iff he.whole, startsWord_blank]

/-- What precedes a blank is edited as if nothing followed. -/
lemma substituteFrom_ahead (before a b : List Char) :
    substituteFrom e.rule 0 before (a ++ ' ' :: b) =
      substituteFrom e.rule 0 before a ++
        ' ' :: substituteFrom e.rule 0 (' ' :: (a.reverse ++ before)) b := by
  induction before, a using word_induction he.whole with
  | nil before =>
    rw [rule, substituteFrom_nil he.whole]
    exact substituteFrom_between he.whole (by decide) before b
  | unfound before c a hfound ih =>
    have hlonger := he.afterWord?_ahead before (c :: a) b
    rw [hfound, Option.map_none, cons_append] at hlonger
    rw [rule] at ih ⊢
    rw [cons_append, substituteFrom_unfound hlonger, substituteFrom_unfound hfound, ih]
    simp
  | found before m after hfound _ ih =>
    have hlonger := he.afterWord?_ahead before (m ++ after) b
    rw [hfound, Option.map_some, append_assoc] at hlonger
    rw [rule] at ih ⊢
    rw [append_assoc, substituteFrom_found he.whole hlonger,
      substituteFrom_found he.whole hfound, he.ahead, ih]
    simp

/-- What follows a blank is edited as by itself, unless it follows AS. -/
lemma substituteFrom_behind {far : List Char} (hfar : renames (' ' :: far) = false)
    (near s : List Char) :
    substituteFrom e.rule 0 (near ++ ' ' :: far) s = substituteFrom e.rule 0 near s := by
  induction near, s using word_induction he.whole with
  | nil near => rw [rule, substituteFrom_nil he.whole, substituteFrom_nil he.whole]
  | unfound near c s hfound ih =>
    have hbehind := he.afterWord?_behind near far (c :: s)
    rw [hfound] at hbehind
    rw [rule] at ih ⊢
    rw [substituteFrom_unfound hbehind, substituteFrom_unfound hfound]
    exact congrArg (c :: ·) ih
  | found near m after hfound _ ih =>
    have hbehind := he.afterWord?_behind near far (m ++ after)
    rw [hfound] at hbehind
    rw [rule, append_assoc] at ih
    rw [rule, substituteFrom_found he.whole hbehind, substituteFrom_found he.whole hfound,
      he.behind near far after hfar, ih]

lemma run_parts {a : List Char} (ha : renames (' ' :: a.reverse) = false) (b : List Char) :
    e.run (a ++ ' ' :: b) = e.run a ++ ' ' :: e.run b := by
  have hrest := he.substituteFrom_behind ha [] b
  rw [nil_append] at hrest
  unfold run substitute
  rw [he.substituteFrom_ahead, append_nil, hrest]

lemma substituteFrom_other {w : List Char} (hw : IsWordText w) (hne : ¬ SameFolded w e.word)
    (before : List Char) : substituteFrom e.rule 0 before w = w := by
  have hkept : substituteFrom e.rule 0 before (w ++ []) =
      w ++ substituteFrom e.rule 0 (w.reverse ++ before) [] := by
    refine substituteFrom_word he.whole hw fun after hfound => ?_
    rw [append_nil] at hfound
    obtain ⟨-, hafter, m, hm, hsame⟩ := (afterWord?_eq_some_iff he.whole).1 hfound
    obtain _ | ⟨c, after⟩ := after
    · rw [append_nil] at hm
      exact absurd (hm ▸ hsame) hne
    · have hc : isWord c := hw c (by rw [hm]; simp)
      exact absurd hc (Bool.eq_false_iff.1 hafter)
  rwa [rule, append_nil, substituteFrom_nil he.whole, append_nil] at hkept

lemma run_like {w : List Char} (hsame : SameFolded w e.word) (haccept : e.accept [] []) :
    e.run w = e.written := by
  have hfound : afterWord? e.word [] (w ++ []) = some [] :=
    (afterWord?_eq_some_iff he.whole).2 ⟨rfl, rfl, w, rfl, hsame⟩
  have hwritten : substituteFrom e.rule 0 [] (w ++ []) =
      (if e.accept [] [] then e.written else w) ++
        substituteFrom e.rule 0 (w.reverse ++ []) [] := substituteFrom_found he.whole hfound
  rwa [haccept, if_pos rfl, rule, substituteFrom_nil he.whole, append_nil, append_nil]
    at hwritten

/-- The result is the text itself, or it is longer. -/
lemma run_eq_or_longer (s : List Char) : e.run s = s ∨ s.length < (e.run s).length := by
  suffices h : ∀ before, substituteFrom e.rule 0 before s = s ∨
      s.length < (substituteFrom e.rule 0 before s).length from h []
  intro before
  induction before, s using word_induction he.whole with
  | nil before =>
    rw [rule, substituteFrom_nil he.whole]
    exact .inl rfl
  | unfound before c s hfound ih =>
    rw [rule] at ih ⊢
    rw [substituteFrom_unfound hfound]
    rcases ih with hsame | hlonger
    · exact .inl (congrArg (c :: ·) hsame)
    · exact .inr (by simpa using hlonger)
  | found before m after hfound hsame ih =>
    have hlength : m.length = e.word.length := hsame.length_eq
    have hlong := he.longer
    rw [rule] at ih ⊢
    rw [substituteFrom_found he.whole hfound]
    split
    · -- a longer text stands for the word
      right
      rw [length_append, length_append]
      rcases ih with hkept | hlonger
      · rw [hkept]
        omega
      · omega
    · rcases ih with hkept | hlonger
      · exact .inl (by rw [hkept])
      · right
        rw [length_append, length_append]
        omega

lemma length_le_run (s : List Char) : s.length ≤ (e.run s).length := by
  rcases he.run_eq_or_longer s with hkept | hlonger
  · exact Nat.le_of_eq (by rw [hkept])
  · exact Nat.le_of_lt hlonger

end IsPathEdit

/-! ## Runs of edits -/

/-- Runs edits one after another. -/
def runAll (es : List WordEdit) (s : List Char) : List Char :=
  es.foldl (fun s e => e.run s) s

variable {es : List WordEdit} (hes : ∀ e ∈ es, e.IsPathEdit)

include hes

lemma runAll_cases (s : List Char) :
    (∀ e ∈ es, e.run s = s) ∧ runAll es s = s ∨ s.length < (runAll es s).length := by
  induction es generalizing s with
  | nil => exact .inl ⟨fun e he => absurd he not_mem_nil, rfl⟩
  | cons e es ih =>
    have hfirst := (hes e mem_cons_self).run_eq_or_longer s
    have hrest := ih (forall_mem_cons.1 hes).2 (e.run s)
    have hrun : runAll (e :: es) s = runAll es (e.run s) := rfl
    rw [hrun]
    rcases hfirst with hsame | hlonger
    · rw [hsame] at hrest ⊢
      rcases hrest with ⟨hall, hkept⟩ | hlonger
      · refine .inl ⟨fun e' he' => ?_, hkept⟩
        rcases mem_cons.1 he' with rfl | he'
        · exact hsame
        · exact hall e' he'
      · exact .inr hlonger
    · rcases hrest with ⟨-, hkept⟩ | hlater
      · exact .inr (by rwa [hkept])
      · exact .inr (by omega)

/-- A run of edits leaves a text alone exactly if each of them does. -/
lemma runAll_eq_iff {s : List Char} : runAll es s = s ↔ ∀ e ∈ es, e.run s = s := by
  constructor
  · intro hkept
    rcases runAll_cases hes s with ⟨hall, -⟩ | hlonger
    · exact hall
    · rw [hkept] at hlonger
      exact absurd hlonger (Nat.lt_irrefl _)
  · intro hall
    induction es with
    | nil => rfl
    | cons e es ih =>
      have hrun : runAll (e :: es) s = runAll es (e.run s) := rfl
      rw [hrun, hall e mem_cons_self]
      exact ih (forall_mem_cons.1 hes).2
        (forall_mem_cons.1 hall).2

end WordEdit

end StreamQuery
