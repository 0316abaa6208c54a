import Mathlib.Data.List.TakeWhile
import StreamQuery.Edit.WindowStart
import StreamQuery.Proofs.WindowPlace

/-!
# The line of the source in hopping statements

The window starts of a hopping statement are taken out after the window has been placed, and the
line of the source is not touched.  A window start before the line could take FROM for its name, but
only if AS is the last word before it (`leavesFrom`); a comma before the line is dropped, and the
line stays (`dropDangling_line`).  In the line itself there is nothing to find (`Passed`,
`passed_window`).
-/

namespace StreamQuery.WindowStart

open Text List
open Placement (fromLine)

variable {u p v : List Char} {c : Char}

/-! ## Substitution by a scanner -/

section

variable {scan : List Char → Option (List Char)} {written : String}

variable {rest : List Char}

/-- A scanner does not look at what is before. -/
lemma substituteFrom_before (skip : Nat) (before before' rest : List Char) :
    substituteFrom (scanRule scan written) skip before rest =
      substituteFrom (scanRule scan written) skip before' rest :=
  substituteFrom_before_eq (fun _ _ _ => rfl) skip before before' rest

/-- A character where nothing is found stays. -/
lemma substituteFrom_unfound {before : List Char} {c : Char} (h : scan (c :: rest) = none) :
    substituteFrom (scanRule scan written) 0 before (c :: rest) =
      c :: substitute (scanRule scan written) rest := by
  have hrule : scanRule scan written before (c :: rest) = none := by rw [scanRule, h]; rfl
  simp only [substituteFrom, hrule]
  exact congrArg _ (substituteFrom_before ..)

/-- A part of a text where nothing is found stays. -/
lemma substitute_pass {p : List Char} (h : ∀ z, z <:+ p → z ≠ [] → scan (z ++ rest) = none) :
    substitute (scanRule scan written) (p ++ rest) =
      p ++ substitute (scanRule scan written) rest := by
  induction p with
  | nil => rfl
  | cons c p ih =>
    have hfirst := h (c :: p) suffix_rfl (cons_ne_nil c p)
    rw [cons_append] at hfirst ⊢
    rw [substitute, substituteFrom_unfound hfirst,
      ih fun z hz hne => h z (hz.trans (suffix_cons ..)) hne]
    rfl

/-- If the scanner finds in the first part what it finds there alone, the parts are edited one by
one. -/
lemma substitute_append {front : List Char} (hnil : scan [] = none)
    (h : ∀ y, y <:+ front → y ≠ [] → scan (y ++ rest) = (scan y).map (· ++ rest)) :
    substitute (scanRule scan written) (front ++ rest) =
      substitute (scanRule scan written) front ++ substitute (scanRule scan written) rest := by
  suffices hskip : ∀ skip ≤ front.length, ∀ before,
      substituteFrom (scanRule scan written) skip before (front ++ rest) =
        substituteFrom (scanRule scan written) skip before front ++
          substitute (scanRule scan written) rest from hskip 0 (Nat.zero_le _) []
  induction front with
  | nil =>
    intro skip hskip before
    obtain rfl : skip = 0 := Nat.le_zero.1 hskip
    have hrule : scanRule scan written before [] = none := by rw [scanRule, hnil]; rfl
    simp only [nil_append, substituteFrom, hrule]
    exact substituteFrom_before ..
  | cons c front ih =>
    have hfront := ih fun y hy => h y (hy.trans (suffix_cons ..))
    intro skip hskip before
    cases skip with
    | succ skip => exact hfront skip (Nat.le_of_succ_le_succ hskip) (c :: before)
    | zero =>
      have hfirst := h (c :: front) suffix_rfl (cons_ne_nil c front)
      have hrule : scanRule scan written before (c :: front ++ rest) =
          scanRule scan written before (c :: front) := by
        unfold scanRule
        rw [hfirst, Option.map_map]
        congr 1
        funext after
        simp only [Function.comp_apply, length_append, Nat.add_sub_add_right]
      rw [cons_append] at hrule ⊢
      cases hfound : scanRule scan written before (c :: front) with
      | none =>
        rw [hfound] at hrule
        simp only [substituteFrom, hrule, hfound, hfront 0 (Nat.zero_le _), cons_append]
      | some found =>
        obtain ⟨taken, text⟩ := found
        rw [hfound] at hrule
        cases taken with
        | zero =>
          simp only [substituteFrom, hrule, hfound, hfront 0 (Nat.zero_le _), append_assoc,
            cons_append]
        | succ taken =>
          have htaken : taken ≤ front.length := by
            obtain ⟨after, -, hafter⟩ := Option.map_eq_some_iff.1 hfound
            obtain ⟨hlength, -⟩ := Prod.mk.inj hafter
            rw [length_cons] at hlength
            omega
          simp only [substituteFrom, hrule, hfound, hfront taken htaken, append_assoc]

end

/-! ## Scanners before the line of the source -/

/-- A word ends where no word character follows. -/
lemma dropFolded?_front {word : List Char} (hword : ∀ c ∈ word, isNamePart c)
    {rest : List Char} (hrest : startsWord rest = false) (u : List Char) :
    dropFolded? word (u ++ rest) = (dropFolded? word u).map (· ++ rest) := by
  induction word generalizing u with
  | nil => rw [dropFolded?_nil, dropFolded?_nil]; rfl
  | cons p word ih =>
    cases u with
    | nil =>
      cases rest with
      | nil => rfl
      | cons c rest =>
        have hp : ¬ (fold p == fold c) := by
          intro hfold
          have hc := isWord_of_fold (hword p (mem_cons_self ..)) (beq_iff_eq.1 hfold).symm
          exact absurd hc (Bool.eq_false_iff.1 hrest)
        simp only [nil_append, dropFolded?, if_neg hp, Option.map_none]
    | cons c u =>
      simp only [cons_append, dropFolded?]
      split
      · exact ih (forall_mem_cons.1 hword).2 u
      · rfl

lemma dropWhile_line {p : Char → Bool} (hp : p '\n' = false) (u rest : List Char) :
    (u ++ fromLine ++ rest).dropWhile p = u.dropWhile p ++ fromLine ++ rest := by
  have hline : (fromLine ++ rest).dropWhile p = fromLine ++ rest :=
    dropWhile_cons_of_neg (Bool.eq_false_iff.1 hp)
  rw [append_assoc, dropWhile_append]
  split
  · next hempty => rw [isEmpty_iff.1 hempty, hline, nil_append]
  · rw [append_assoc]

lemma afterGap?_line_of_blank (hu : ∀ c ∈ u, isBlank c) (rest : List Char) :
    afterGap? (u ++ fromLine ++ rest) = some ("FROM ".toList ++ rest) := by
  have hhead : (u ++ fromLine ++ rest).head?.any isBlank := by
    cases u with
    | nil => rfl
    | cons c u => exact hu c (mem_cons_self ..)
  have hdrop : (u ++ fromLine ++ rest).dropWhile isBlank = "FROM ".toList ++ rest := by
    rw [append_assoc, dropWhile_append_of_pos hu]
    rfl
  rw [afterGap?, if_pos hhead, hdrop]

lemma afterGap?_line (hu : ¬ ∀ c ∈ u, isBlank c) (rest : List Char) :
    afterGap? (u ++ fromLine ++ rest) = (afterGap? u).map (· ++ fromLine ++ rest) := by
  have hdrop : (u ++ fromLine ++ rest).dropWhile isBlank =
      u.dropWhile isBlank ++ fromLine ++ rest := by
    have hne : ¬ (u.dropWhile isBlank).isEmpty := by
      rw [List.isEmpty_iff, List.dropWhile_eq_nil_iff]
      exact hu
    rw [append_assoc, dropWhile_append, if_neg hne, append_assoc]
  cases u with
  | nil => exact absurd (fun c hc => absurd hc not_mem_nil) hu
  | cons c u =>
    unfold afterGap?
    rw [hdrop]
    cases hblank : isBlank c with
    | true => simp [hblank]
    | false => simp [hblank]

lemma afterGap?_of_blank {s : List Char} (hu : ∀ c ∈ u, isBlank c)
    (h : afterGap? u = some s) : s = [] := by
  unfold afterGap? at h
  split at h
  · rw [← Option.some.inj h, dropWhile_eq_nil_iff]
    exact hu
  · cases h

/-- A scanner that finds nothing in FROM does not reach the line of the source by white space. -/
lemma afterGap?_bind_line {scan : List Char → Option (List Char)} (hnil : scan [] = none)
    (hfrom : ∀ rest, scan ("FROM ".toList ++ rest) = none) {rest : List Char} (u : List Char)
    (hscan : ∀ s, afterGap? u = some s →
      scan (s ++ fromLine ++ rest) = (scan s).map (· ++ fromLine ++ rest)) :
    (afterGap? (u ++ fromLine ++ rest)).bind scan =
      ((afterGap? u).bind scan).map (· ++ fromLine ++ rest) := by
  by_cases hu : ∀ c ∈ u, isBlank c
  · rw [afterGap?_line_of_blank hu, Option.bind_some, hfrom]
    cases hgap : afterGap? u with
    | none => rfl
    | some s => rw [afterGap?_of_blank hu hgap, Option.bind_some, hnil, Option.map_none]
  · rw [afterGap?_line hu]
    cases hgap : afterGap? u with
    | none => rfl
    | some s => rw [Option.map_some, Option.bind_some, Option.bind_some, hscan s hgap]

lemma startsWord_line (u rest : List Char) : startsWord (u ++ fromLine ++ rest) = startsWord u := by
  cases u with
  | nil => exact (rfl : isWord '\n' = false)
  | cons c u => rfl

/-- A word is found before the line of the source or not at all. -/
lemma dropFolded?_line {word : List Char} (hword : ∀ c ∈ word, isNamePart c)
    (u rest : List Char) : dropFolded? word (u ++ fromLine ++ rest) =
      (dropFolded? word u).map (· ++ fromLine ++ rest) := by
  simp only [append_assoc]
  exact dropFolded?_front hword (by rw [← nil_append fromLine, startsWord_line]; rfl) u

/-- A name does not reach the source line. -/
lemma afterName?_line (u rest : List Char) :
    afterName? (u ++ fromLine ++ rest) = (afterName? u).map (· ++ fromLine ++ rest) := by
  unfold afterName?
  rw [dropWhile_line rfl]
  cases u with
  | nil => rfl
  | cons c u =>
    cases hstart : isNameStart c with
    | true => simp [hstart]
    | false => simp [hstart]

/-- Nor does what is taken with a comma. -/
lemma afterComma_line (u rest : List Char) :
    afterComma (u ++ fromLine ++ rest) = afterComma u ++ fromLine ++ rest := by
  have hspace : isSpace '\n' = false := by decide
  unfold afterComma
  rw [dropWhile_line hspace]
  cases hdrop : u.dropWhile isSpace with
  | nil => rfl
  | cons c u =>
    by_cases hc : c = ','
    · subst hc
      exact dropWhile_line hspace u rest
    · simp only [cons_append]
      split
      · next hcomma => exact absurd (cons.inj hcomma).1 hc
      · split
        · next hcomma => exact absurd (cons.inj hcomma).1 hc
        · rfl

/-- True when the last thing in a text, apart from white space, is AS. -/
def endsWithAs (s : List Char) : Bool :=
  ((s.reverse.dropWhile isBlank).take 2).map fold == ['s', 'a']

lemma letters_of_as {m : List Char} (h : SameFolded m "AS".toList) :
    ∃ a b, m = [a, b] ∧ fold a = 'a' ∧ fold b = 's' := by
  match m, h.length_eq with
  | [a, b], _ =>
    obtain ⟨ha, hrest⟩ := cons.inj h
    exact ⟨a, b, rfl, ha, (cons.inj hrest).1⟩

/-- AS with white space behind it ends a text with AS. -/
lemma endsWithAs_append {x m gap : List Char} (hm : SameFolded m "AS".toList)
    (hgap : ∀ c ∈ gap, isBlank c) : endsWithAs (x ++ m ++ gap) := by
  obtain ⟨a, b, rfl, ha, hb⟩ := letters_of_as hm
  have hword : isWord b := isWord_of_fold (by decide : isNamePart 'S') hb
  have hreverse : (x ++ [a, b] ++ gap).reverse = gap.reverse ++ b :: a :: x.reverse := by simp
  rw [endsWithAs, hreverse, dropWhile_append_of_pos fun c hc => hgap c (mem_reverse.1 hc),
    dropWhile_cons_of_neg (Bool.eq_false_iff.1 (Placement.isBlank_of_isWord hword))]
  simp only [take_succ_cons, take_zero, map_cons, map_nil, ha, hb]
  decide

lemma isNamePart_windowStart : ∀ c ∈ "WINDOWSTART".toList, isNamePart c :=
  all_eq_true.1 (by decide)

lemma isNamePart_as : ∀ c ∈ "AS".toList, isNamePart c :=
  all_eq_true.1 (by decide)

/-- A window start that does not end with AS is a column before the line or not at all. -/
lemma afterColumn?_line {y : List Char} (hy : endsWithAs y = false) (rest : List Char) :
    afterColumn? (y ++ fromLine ++ rest) = (afterColumn? y).map (· ++ fromLine ++ rest) := by
  -- the name behind AS
  let named : List Char → Option (List Char) := fun s =>
    (afterGap? s).bind fun s => (afterName? s).bind fun s => some (afterComma s)
  let renamed : List Char → Option (List Char) := fun s => (dropFolded? "AS".toList s).bind named
  have heq : ∀ s, afterColumn? s = (dropFolded? "WINDOWSTART".toList s).bind fun s =>
      (afterGap? s).bind renamed := by
    intro s
    unfold afterColumn?
    rfl
  rw [heq, heq, dropFolded?_line isNamePart_windowStart]
  cases hu : dropFolded? "WINDOWSTART".toList y with
  | none => rfl
  | some u =>
    obtain ⟨m, rfl, -⟩ := dropFolded?_eq_some_iff.1 hu
    rw [Option.map_some, Option.bind_some, Option.bind_some]
    refine afterGap?_bind_line rfl (fun _ => rfl) u fun s hs => ?_
    have hsuffix : ∃ x, m ++ u = x ++ s := by
      unfold afterGap? at hs
      split at hs
      · rw [← Option.some.inj hs]
        exact ⟨m ++ u.takeWhile isBlank, by
          rw [append_assoc, takeWhile_append_dropWhile]⟩
      · cases hs
    obtain ⟨x, hx⟩ := hsuffix
    dsimp only [renamed]
    rw [dropFolded?_line isNamePart_as]
    cases hw : dropFolded? "AS".toList s with
    | none => rfl
    | some w =>
      obtain ⟨m', rfl, hm'⟩ := dropFolded?_eq_some_iff.1 hw
      have hblank : ¬ ∀ c ∈ w, isBlank c := by
        intro hblank
        rw [hx, ← append_assoc, endsWithAs_append hm' hblank] at hy
        cases hy
      rw [Option.map_some, Option.bind_some, Option.bind_some]
      dsimp only [named]
      rw [afterGap?_line hblank]
      cases afterGap? w with
      | none => rfl
      | some n =>
        rw [Option.map_some, Option.bind_some, Option.bind_some, afterName?_line]
        cases afterName? n with
        | none => rfl
        | some n => simp only [Option.map_some, Option.bind_some, afterComma_line]

/-- A find under `EndTs` does not reach the source line. -/
lemma afterEnd?_line (y rest : List Char) :
    afterEnd? (y ++ fromLine ++ rest) = (afterEnd? y).map (· ++ fromLine ++ rest) := by
  have hend : ∀ c ∈ "ENDTS".toList, isNamePart c := all_eq_true.1 (by decide)
  let named : List Char → Option (List Char) := fun s =>
    (dropFolded? "ENDTS".toList s).filter fun after => !startsWord after
  let renamed : List Char → Option (List Char) := fun s =>
    named (((dropFolded? "AS".toList s).bind afterGap?).getD s)
  have heq : ∀ s, afterEnd? s = (dropFolded? "WINDOWSTART".toList s).bind fun s =>
      (afterGap? s).bind renamed := by
    intro s
    unfold afterEnd?
    rfl
  have hnamed : ∀ s, named (s ++ fromLine ++ rest) = (named s).map (· ++ fromLine ++ rest) := by
    intro s
    dsimp only [named]
    rw [dropFolded?_line hend]
    cases dropFolded? "ENDTS".toList s with
    | none => rfl
    | some after =>
      simp only [Option.map_some, Option.filter, startsWord_line]
      split
      · rfl
      · rfl
  rw [heq, heq, dropFolded?_line isNamePart_windowStart]
  cases dropFolded? "WINDOWSTART".toList y with
  | none => rfl
  | some u =>
    rw [Option.map_some, Option.bind_some, Option.bind_some]
    refine afterGap?_bind_line rfl (fun _ => rfl) u fun s _ => ?_
    dsimp only [renamed]
    rw [dropFolded?_line isNamePart_as]
    cases hw : dropFolded? "AS".toList s with
    | none => exact hnamed s
    | some w =>
      rw [Option.map_some, Option.bind_some, Option.bind_some]
      by_cases hblank : ∀ c ∈ w, isBlank c
      · -- neither AS nor FROM is the name
        have hs : named s = none := by
          obtain ⟨m, rfl, hm⟩ := dropFolded?_eq_some_iff.1 hw
          obtain ⟨a, b, rfl, ha, -⟩ := letters_of_as hm
          have hfirst : ¬ (fold 'E' == fold a) := by
            rw [ha]
            decide
          have hdrop : dropFolded? "ENDTS".toList ([a, b] ++ w) = none := if_neg hfirst
          dsimp only [named]
          rw [hdrop]
          rfl
        rw [afterGap?_line_of_blank hblank, Option.getD_some]
        cases hgap : afterGap? w with
        | none =>
          rw [Option.getD_none, hs]
          rfl
        | some n =>
          rw [afterGap?_of_blank hblank hgap]
          rfl
      · rw [afterGap?_line hblank]
        cases afterGap? w with
        | none => exact hnamed s
        | some n => exact hnamed n

/-! ## Texts that are passed over -/

/-- A text in which nothing is found, whatever follows. -/
def Passed (p : List Char) : Prop :=
  ∀ z, z <:+ p → z ≠ [] → ∀ rest,
    dropFolded? "WINDOWSTART".toList (z ++ rest) = none ∧ afterDangling? (z ++ rest) = none

lemma suffix_append_cases {z a b : List Char} (h : z <:+ a ++ b) :
    z <:+ b ∨ ∃ y, y <:+ a ∧ y ≠ [] ∧ z = y ++ b := by
  obtain ⟨front, hparts⟩ := h
  rcases append_eq_append_iff.1 hparts with ⟨y, rfl, rfl⟩ | ⟨x, rfl, rfl⟩
  · by_cases hy : y = []
    · subst hy
      exact .inl suffix_rfl
    · exact .inr ⟨y, suffix_append .., hy, rfl⟩
  · exact .inl (suffix_append ..)

/-- What is passed over in parts is passed over. -/
lemma Passed.append {p' : List Char} (hp : Passed p) (hp' : Passed p') : Passed (p ++ p') := by
  intro z hz hne rest
  rcases suffix_append_cases hz with hz | ⟨y, hy, hyne, rfl⟩
  · exact hp' z hz hne rest
  · rw [append_assoc]
    exact hp y hy hyne (p' ++ rest)

/-- Nothing is found in a text if nothing is found at its first character and behind it. -/
lemma Passed.cons {c : Char} {p : List Char} (hp : Passed p)
    (h : ∀ rest, dropFolded? "WINDOWSTART".toList (c :: (p ++ rest)) = none ∧
      afterDangling? (c :: (p ++ rest)) = none) : Passed (c :: p) := by
  intro z hz hne rest
  rcases suffix_cons_iff.1 hz with rfl | hz
  · exact h rest
  · exact hp z hz hne rest

lemma afterDangling?_cons (hc : c ≠ ',') (rest : List Char) :
    afterDangling? (c :: rest) = none := by
  unfold afterDangling?
  split
  · next hcomma => exact absurd (cons.inj hcomma).1 hc
  · rfl

/-- A character with which nothing begins. -/
def isInert (c : Char) : Bool :=
  fold c != 'w' && c != ','

/-- A text of inert characters is passed over. -/
lemma passed_of_inert (h : p.all isInert) : Passed p := by
  intro z hz hne rest
  obtain ⟨c, z, rfl⟩ := exists_cons_of_ne_nil hne
  have hc := all_eq_true.1 h c (hz.subset (mem_cons_self ..))
  rw [isInert, Bool.and_eq_true, bne_iff_ne, bne_iff_ne] at hc
  refine ⟨if_neg fun hfold => hc.1 (beq_iff_eq.1 hfold).symm, afterDangling?_cons hc.2 _⟩

/-- Taking the window starts out of a text. -/
def dropChars (asksForStart : Bool) (s : List Char) : List Char :=
  dropDangling (strip (toEnd (if asksForStart then s else strip s)))

/-- Taking out window starts passes over such a text. -/
lemma Passed.strip (hp : Passed p) (rest : List Char) :
    strip (p ++ rest) = p ++ WindowStart.strip rest :=
  substitute_pass fun z hz hne => by rw [afterColumn?, (hp z hz hne rest).1]; rfl

/-- So does turning them. -/
lemma Passed.toEnd (hp : Passed p) (rest : List Char) :
    toEnd (p ++ rest) = p ++ WindowStart.toEnd rest :=
  substitute_pass fun z hz hne => by rw [afterEnd?, (hp z hz hne rest).1]; rfl

/-- So does taking out commas. -/
lemma Passed.dropDangling (hp : Passed p) (rest : List Char) :
    dropDangling (p ++ rest) = p ++ WindowStart.dropDangling rest :=
  substitute_pass fun z hz hne => (hp z hz hne rest).2

/-- A text in which nothing is found stays. -/
lemma Passed.dropChars (hp : Passed p) (asksForStart : Bool) (rest : List Char) :
    dropChars asksForStart (p ++ rest) = p ++ WindowStart.dropChars asksForStart rest := by
  unfold WindowStart.dropChars
  cases asksForStart with
  | true => simp only [if_true, hp.toEnd, hp.strip, hp.dropDangling]
  | false => simp only [Bool.false_eq_true, if_false, hp.toEnd, hp.strip, hp.dropDangling]

/-- The source line is passed over. -/
lemma passed_fromLine : Passed fromLine :=
  passed_of_inert (by decide)

/-! ## Up to the line of the source -/

lemma endsWithAs_of_suffix {y : List Char} (hsuffix : y <:+ v) (hv : endsWithAs v = false) :
    endsWithAs y = false := by
  obtain ⟨x, rfl⟩ := hsuffix
  cases hy : endsWithAs y with
  | false => rfl
  | true =>
    have hletters : ((y.reverse.dropWhile isBlank).take 2).map fold = ['s', 'a'] := beq_iff_eq.1 hy
    have hlength : 2 ≤ (y.reverse.dropWhile isBlank).length := by
      have hsize := congrArg length hletters
      rw [length_map, length_take] at hsize
      simp at hsize
      omega
    have hne : ¬ (y.reverse.dropWhile isBlank).isEmpty := by
      rw [List.isEmpty_iff]
      intro hnil
      rw [hnil] at hlength
      cases hlength
    rw [endsWithAs, reverse_append, dropWhile_append, if_neg hne,
      take_append_of_le_length hlength, hletters] at hv
    cases hv

/-- Window starts are taken out on both sides of the line. -/
lemma strip_line (hv : endsWithAs v = false) (rest : List Char) :
    strip (v ++ fromLine ++ rest) = strip v ++ fromLine ++ strip rest := by
  have hline : ∀ y, y <:+ v → y ≠ [] →
      afterColumn? (y ++ (fromLine ++ rest)) = (afterColumn? y).map (· ++ (fromLine ++ rest)) := by
    intro y hy _
    have hcolumn := afterColumn?_line (endsWithAs_of_suffix hy hv) rest
    simpa only [append_assoc] using hcolumn
  rw [append_assoc, strip, substitute_append rfl hline, append_assoc]
  exact congrArg _ (passed_fromLine.strip rest)

/-- They are turned on both sides of the line. -/
lemma toEnd_line (v rest : List Char) :
    toEnd (v ++ fromLine ++ rest) = toEnd v ++ fromLine ++ toEnd rest := by
  have hline : ∀ y, y <:+ v → y ≠ [] →
      afterEnd? (y ++ (fromLine ++ rest)) = (afterEnd? y).map (· ++ (fromLine ++ rest)) := by
    intro y _ _
    have hend := afterEnd?_line y rest
    simpa only [append_assoc] using hend
  rw [append_assoc, toEnd, substitute_append rfl hline, append_assoc]
  exact congrArg _ (passed_fromLine.toEnd rest)

/-- When a comma dangles. -/
lemma afterDangling?_comma (s : List Char) : afterDangling? (',' :: s) =
    if (s.takeWhile isBlank).getLast? == some '\n' &&
        "FROM".toList.isPrefixOf (s.dropWhile isBlank) &&
        !startsWord ((s.dropWhile isBlank).drop 4) then some ((s.dropWhile isBlank).drop 4)
    else none := rfl

/-- A comma right before the line is found. -/
lemma afterDangling?_blank (hv : ∀ c ∈ v, isBlank c) (rest : List Char) :
    afterDangling? (',' :: (v ++ fromLine ++ rest)) = some (' ' :: rest) := by
  have htake : (v ++ fromLine ++ rest).takeWhile isBlank = v ++ ['\n'] := by
    rw [append_assoc, takeWhile_append_of_pos hv]
    rfl
  have hdrop : (v ++ fromLine ++ rest).dropWhile isBlank = "FROM ".toList ++ rest := by
    rw [append_assoc, dropWhile_append_of_pos hv]
    rfl
  have hend : startsWord (("FROM ".toList ++ rest).drop 4) = false :=
    (rfl : isWord ' ' = false)
  have hfrom : "FROM".toList.isPrefixOf ("FROM ".toList ++ rest) := rfl
  rw [afterDangling?_comma, htake, hdrop, getLast?_concat, hfrom, hend]
  rfl

/-- Another comma dangles before the line of the source or not at all. -/
lemma afterDangling?_line (hv : ¬ ∀ c ∈ v, isBlank c) (rest : List Char) :
    afterDangling? (',' :: (v ++ fromLine ++ rest)) =
      (afterDangling? (',' :: v)).map (· ++ fromLine ++ rest) := by
  have hne : ¬ (v.dropWhile isBlank).isEmpty := by
    rw [List.isEmpty_iff, List.dropWhile_eq_nil_iff]
    exact hv
  have hlength : (v.takeWhile isBlank).length ≠ v.length := by
    have hparts := congrArg length (takeWhile_append_dropWhile (p := isBlank) (l := v))
    rw [length_append] at hparts
    have hpos := length_pos_iff.2 fun hnil => hne (isEmpty_iff.2 hnil)
    omega
  have htake : (v ++ fromLine ++ rest).takeWhile isBlank = v.takeWhile isBlank := by
    rw [append_assoc, takeWhile_append, if_neg hlength]
  have hdrop : (v ++ fromLine ++ rest).dropWhile isBlank =
      v.dropWhile isBlank ++ (fromLine ++ rest) := by
    rw [append_assoc, dropWhile_append, if_neg hne]
  have hfrom : "FROM".toList.isPrefixOf (v.dropWhile isBlank ++ (fromLine ++ rest)) =
      "FROM".toList.isPrefixOf (v.dropWhile isBlank) := isPrefixOf_append_cons (by decide) _ _
  rw [afterDangling?_comma, afterDangling?_comma, htake, hdrop, hfrom]
  cases hmatch : "FROM".toList.isPrefixOf (v.dropWhile isBlank) with
  | false => simp
  | true =>
    have hfour : 4 ≤ (v.dropWhile isBlank).length :=
      (List.isPrefixOf_iff_prefix.1 hmatch).length_le
    have hafter : startsWord ((v.dropWhile isBlank).drop 4 ++ (fromLine ++ rest)) =
        startsWord ((v.dropWhile isBlank).drop 4) := by
      rw [← append_assoc, startsWord_line]
    rw [drop_append_of_le_length hfour, hafter]
    split
    · simp
    · rfl

/-- A comma before the source line is taken out, and the line stays. -/
lemma dropDangling_line (v : List Char) : ∃ v', ∀ rest,
    dropDangling (v ++ fromLine ++ rest) = v' ++ fromLine ++ dropDangling rest := by
  suffices hskip : ∀ skip ≤ v.length, ∃ v', ∀ before rest,
      substituteFrom (scanRule afterDangling? "\nFROM") skip before (v ++ fromLine ++ rest) =
        v' ++ fromLine ++ dropDangling rest by
    obtain ⟨v', hv'⟩ := hskip 0 (Nat.zero_le _)
    exact ⟨v', hv' []⟩
  induction v with
  | nil =>
    intro skip hskip
    obtain rfl : skip = 0 := Nat.le_zero.1 hskip
    refine ⟨[], fun before rest => ?_⟩
    rw [substituteFrom_before _ before []]
    exact passed_fromLine.dropDangling rest
  | cons c v ih =>
    intro skip hskip
    cases skip with
    | succ skip =>
      obtain ⟨v', hv'⟩ := ih skip (Nat.le_of_succ_le_succ hskip)
      exact ⟨v', fun before rest => hv' (c :: before) rest⟩
    | zero =>
      obtain ⟨v', hv'⟩ := ih 0 (Nat.zero_le _)
      -- nothing is found at this character, whatever follows the line
      have hpass : (∀ rest, afterDangling? (c :: (v ++ fromLine ++ rest)) = none) →
          ∃ v', ∀ before rest, substituteFrom (scanRule afterDangling? "\nFROM") 0 before
            (c :: v ++ fromLine ++ rest) = v' ++ fromLine ++ dropDangling rest := by
        intro hnone
        refine ⟨c :: v', fun before rest => ?_⟩
        rw [cons_append, cons_append, substituteFrom_unfound (hnone rest), substitute, hv']
        rfl
      by_cases hc : c = ','
      · subst hc
        by_cases hblank : ∀ d ∈ v, isBlank d
        · -- the comma goes, with all that is up to FROM
          refine ⟨[], fun before rest => ?_⟩
          have hrule : scanRule afterDangling? "\nFROM" before (',' :: (v ++ fromLine ++ rest)) =
              some ((v ++ "\nFROM".toList).length + 1, "\nFROM".toList) := by
            have hline : fromLine.length = 6 := rfl
            have hfrom : ("\nFROM".toList).length = 5 := rfl
            rw [scanRule, afterDangling?_blank hblank, Option.map_some]
            simp only [length_cons, length_append, hline, hfrom]
            congr 2
            omega
          have hparts : v ++ fromLine ++ rest = v ++ "\nFROM".toList ++ ' ' :: rest := by
            simp [fromLine]
          have hspace : afterDangling? (' ' :: rest) = none := afterDangling?_cons (by decide) rest
          simp only [cons_append, substituteFrom, hrule]
          rw [hparts, substituteFrom_skip, substituteFrom_unfound hspace]
          rfl
        · cases hfound : afterDangling? (',' :: v) with
          | none =>
            exact hpass fun rest => by rw [afterDangling?_line hblank, hfound]; rfl
          | some after =>
            have hrule : ∀ before rest,
                scanRule afterDangling? "\nFROM" before (',' :: (v ++ fromLine ++ rest)) =
                  some (v.length + 1 - after.length, "\nFROM".toList) := by
              intro before rest
              rw [scanRule, afterDangling?_line hblank, hfound, Option.map_some, Option.map_some]
              simp only [length_cons, length_append]
              congr 2
              omega
            cases htaken : v.length + 1 - after.length with
            | zero =>
              refine ⟨"\nFROM".toList ++ ',' :: v', fun before rest => ?_⟩
              simp only [cons_append, substituteFrom, hrule, htaken, hv']
              simp only [append_assoc, cons_append]
            | succ taken =>
              obtain ⟨v', hv'⟩ := ih taken (by omega)
              refine ⟨"\nFROM".toList ++ v', fun before rest => ?_⟩
              simp only [cons_append, substituteFrom, hrule, htaken, hv']
              simp only [append_assoc]
      · exact hpass fun rest => afterDangling?_cons hc _

/-- True when neither the text before the line of the source nor what the first steps make of it
ends with AS. -/
def leavesFrom (asksForStart : Bool) (v : List Char) : Bool :=
  (asksForStart || !endsWithAs v) && !endsWithAs (toEnd (if asksForStart then v else strip v))

/-- The window starts are taken out before the line of the source and behind its beginning. -/
theorem dropChars_line {asksForStart : Bool} {v : List Char}
    (hv : leavesFrom asksForStart v) : ∃ v', ∀ rest,
      dropChars asksForStart (v ++ fromLine ++ rest) =
        v' ++ fromLine ++ dropChars asksForStart rest := by
  rw [leavesFrom, Bool.and_eq_true, Bool.not_eq_true', Bool.or_eq_true, Bool.not_eq_true'] at hv
  obtain ⟨hfirst, hsecond⟩ := hv
  obtain ⟨v', hv'⟩ :=
    dropDangling_line (strip (toEnd (if asksForStart then v else strip v)))
  refine ⟨v', fun rest => ?_⟩
  unfold dropChars
  cases asksForStart with
  | true =>
    simp only [if_true] at hsecond hv' ⊢
    rw [toEnd_line, strip_line hsecond, hv']
  | false =>
    simp only [Bool.false_eq_true, if_false, false_or] at hfirst hsecond hv' ⊢
    rw [strip_line hfirst, toEnd_line, strip_line hsecond, hv']

/-! ## In the line of the source -/

/-- Nothing is found in a source name without commas and window starts, and what follows it. -/
lemma passed_name {name : List Char} (hcomma : ',' ∉ name)
    (hstart : ∀ z, z <:+ name → dropFolded? "WINDOWSTART".toList z = none)
    (hword : isWord c = false) (hc : c ≠ ',') : Passed (name ++ [c]) := by
  intro z hz hne rest
  rcases suffix_concat_iff.1 hz with rfl | ⟨t, rfl, ht⟩
  · exact absurd rfl hne
  · rw [append_assoc]
    constructor
    · have hrest : startsWord ([c] ++ rest) = false := hword
      rw [dropFolded?_front isNamePart_windowStart hrest, hstart t ht]
      rfl
    · cases t with
      | nil => exact afterDangling?_cons hc rest
      | cons d t =>
        have hd : d ≠ ',' := fun hd => hcomma (hd ▸ ht.subset (mem_cons_self ..))
        exact afterDangling?_cons hd _

lemma passed_comma (hc : isBlank c = false) (hp : (c :: p).all isInert) :
    Passed (',' :: ' ' :: c :: p) := by
  have hspace : (' ' :: c :: p).all isInert := by
    rw [all_cons, hp]
    rfl
  refine (passed_of_inert hspace).cons fun rest => ⟨rfl, ?_⟩
  have hfirst : (c :: (p ++ rest)).head?.any isBlank = false := hc
  simp only [cons_append]
  rw [afterDangling?_comma, (Placement.span_space hfirst).1]
  rfl

lemma all_isInert_toString (n : Nat) : (toString n).toList.all isInert := by
  have hdigit : ∀ n < 0x80, (Char.ofNat n).isDigit → isInert (Char.ofNat n) := by
    decide
  rw [Nat.toString_eq_repr, Nat.toList_repr, all_eq_true]
  intro c hc
  have hdigits := Nat.isDigit_of_mem_toDigits (by decide) (by decide) hc
  have hascii : c.toNat < 0x80 := isNamePart_ascii (by simp [isNamePart, Char.isAlphanum, hdigits])
  exact ascii_induction (P := fun c => c.isDigit → isInert c) hdigit hascii hdigits

lemma all_isInert_count (n : Nat) {unit : String} (hunit : unit.toList.all isInert) :
    (toString n ++ unit).toList.all isInert := by
  rw [String.toList_append, all_append, all_isInert_toString, hunit]
  rfl

lemma all_isInert_duration (d : Duration) : d.text.toList.all isInert := by
  unfold Duration.text
  dsimp only
  split
  · exact all_isInert_count _ (by decide)
  · split
    · exact all_isInert_count _ (by decide)
    · split
      · exact all_isInert_count _ (by decide)
      · exact all_isInert_count _ (by decide)

lemma all_isInert_size (t : Timeframe) : t.sizeText.toList.all isInert := by
  unfold Timeframe.sizeText
  split <;> exact all_isInert_count _ (by decide)

lemma passed_append {a b : String} (ha : Passed a.toList) (hb : Passed b.toList) :
    Passed (a ++ b).toList := by
  rw [String.toList_append]
  exact ha.append hb

/-- An inert grace period is passed over. -/
lemma passed_grace {grace : Option String}
    (h : ∀ text, grace = some text → text.toList.all isInert) :
    Passed (Window.graceText grace).toList := by
  cases grace with
  | none => exact passed_of_inert rfl
  | some text =>
    have hcomma : Passed ", GRACE PERIOD ".toList := passed_comma (by decide) (by decide)
    exact passed_append hcomma (passed_of_inert (h text rfl))

lemma passed_windowWord : Passed ['W', 'I', 'N', 'D', 'O', 'W', ' '] := by
  have hlast : Passed ['W', ' '] :=
    (passed_of_inert (p := [' ']) (by decide)).cons fun _ => ⟨rfl, rfl⟩
  have hletters : Passed ['I', 'N', 'D', 'O'] := passed_of_inert (by decide)
  exact (hletters.append hlast).cons fun _ => ⟨rfl, rfl⟩

lemma passed_kind {kind rest : String} (hkind : kind = "WINDOW " ++ rest)
    (hrest : rest.toList.all isInert) : Passed kind.toList := by
  rw [hkind]
  exact passed_append passed_windowWord (passed_of_inert hrest)

/-- A window is passed over. -/
theorem passed_window (window : Window) : Passed window.sql.toList := by
  have hclose : Passed ")".toList := passed_of_inert (by decide)
  cases window with
  | tumbling size grace =>
    have hgrace : Passed (Window.graceText (grace.map fun n => toString n ++ " SECONDS")).toList :=
      passed_grace fun text htext => by
        obtain ⟨n, -, rfl⟩ := Option.map_eq_some_iff.1 htext
        exact all_isInert_count n (by decide)
    have hkind : Passed "WINDOW TUMBLING (SIZE ".toList :=
      @passed_kind _ "TUMBLING (SIZE " (by decide +kernel) (by decide)
    exact passed_append (passed_append (passed_append hkind
      (passed_of_inert (all_isInert_size size))) hgrace) hclose
  | hopping w =>
    have hgrace : Passed (Window.graceText (w.grace.map Duration.text)).toList :=
      passed_grace fun text htext => by
        obtain ⟨d, -, rfl⟩ := Option.map_eq_some_iff.1 htext
        exact all_isInert_duration d
    have hkind : Passed "WINDOW HOPPING (SIZE ".toList :=
      @passed_kind _ "HOPPING (SIZE " (by decide +kernel) (by decide)
    have hadvance : Passed ", ADVANCE BY ".toList := passed_comma (by decide) (by decide)
    exact passed_append (passed_append (passed_append (passed_append (passed_append hkind
      (passed_of_inert (all_isInert_duration w.size))) hadvance)
      (passed_of_inert (all_isInert_duration w.advance))) hgrace) hclose

end StreamQuery.WindowStart
