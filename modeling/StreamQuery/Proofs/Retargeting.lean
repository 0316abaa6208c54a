import StreamQuery.Proofs.WindowKept

/-!
# Another source

The source of a finished statement is exchanged by looking for the first FROM with a name behind it,
and the window is then placed by the same kind of search.  Up to the line of the source, what the
search finds does not depend on the name of the source or on anything behind it (`sourceAt?_line`).

The exchange puts the new name in the place of the source exactly if the front names no source and
the source has a name by the rules of the search (`retargetFrom_line_iff`).  Otherwise the name
behind an earlier FROM is exchanged, as in `EXTRACT(YEAR FROM CAST(...))` (`retargetFrom_earlier`).
The window gets the same place behind the new name as behind the old one (`placed_line`).
-/

namespace StreamQuery.Placement

open Text List

variable {before rest : List Char}

/-! ## Looking up to the line of the source -/

/-- The line of a source begins with this word. -/
def fromWord : List Char :=
  ['\n', 'F', 'R', 'O', 'M']

/-- The word characters in front end where no word character follows. -/
lemma span_append (hrest : startsWord rest = false) (named : List Char) :
    (named ++ rest).takeWhile isWord = named.takeWhile isWord ∧
      (named ++ rest).dropWhile isWord = named.dropWhile isWord ++ rest := by
  induction named with
  | nil => exact ⟨takeWhile_run (m := []) nofun hrest, dropWhile_run (m := []) nofun hrest⟩
  | cons c named ih =>
    rw [cons_append]
    by_cases hc : isWord c
    · rw [takeWhile_cons_of_pos hc, takeWhile_cons_of_pos hc,
        dropWhile_cons_of_pos hc, dropWhile_cons_of_pos hc, ih.1, ih.2]
      exact ⟨rfl, rfl⟩
    · rw [takeWhile_cons_of_neg hc, takeWhile_cons_of_neg hc,
        dropWhile_cons_of_neg hc, dropWhile_cons_of_neg hc]
      exact ⟨rfl, rfl⟩

/-- Before the line of the source, a name is found without looking beyond its first word. -/
lemma sourceAt?_line {u : List Char} (hu : u ≠ []) (before : List Char)
    (hrest : startsWord rest = false) :
    sourceAt? before (u ++ fromWord ++ rest) =
      (sourceAt? before (u ++ fromWord)).map (SourceName.extend rest) := by
  obtain ⟨c, u, rfl⟩ := exists_cons_of_ne_nil hu
  have hfrom : ∀ d ∈ "FROM".toList, isNamePart d := all_eq_true.1 (by decide)
  have hline : ∀ rest, startsWord (fromWord ++ rest) = false :=
    fun _ => (rfl : isWord '\n' = false)
  have hboundary : wordBoundary before (c :: u ++ fromWord ++ rest) =
      wordBoundary before (c :: u ++ fromWord) := rfl
  have hword : ∀ rest, dropFolded? "FROM".toList (c :: u ++ fromWord ++ rest) =
      (dropFolded? "FROM".toList (c :: u)).map (· ++ (fromWord ++ rest)) := by
    intro rest
    rw [append_assoc]
    exact WindowStart.dropFolded?_front hfrom (hline rest) (c :: u)
  have halone := hword []
  simp only [append_nil] at halone
  unfold sourceAt?
  rw [hboundary, hword rest, halone]
  split
  · cases hbehind : dropFolded? "FROM".toList (c :: u) with
    | none => rfl
    | some behind =>
      obtain ⟨m, hm, hlength, -⟩ := dropFolded?_split hbehind
      have hfour : m.length = 4 := hlength
      have htake : ∀ rest, (c :: u ++ fromWord ++ rest).take 4 = m := by
        intro rest
        rw [hm, ← hfour, append_assoc, append_assoc, take_left]
      have halone := htake []
      rw [append_nil] at halone
      have hletter : isBlank 'F' = false := by decide
      have hmem : 'F' ∈ behind ++ fromWord := by simp [fromWord]
      have hnamed := mem_dropWhile hletter hmem
      obtain ⟨hname, hafter⟩ := span_append hrest ((behind ++ fromWord).dropWhile isBlank)
      simp only [Option.map_some, ← append_assoc behind fromWord rest,
        takeWhile_append_of_mem hletter hmem, dropWhile_append_of_mem hletter hmem,
        head?_append_of_mem hnamed, htake rest, halone, hname, hafter]
      split
      · rfl
      · rfl
  · rfl

lemma sourceAt?_of_fold {c : Char} (hc : fold c ≠ fold 'F') (before rest : List Char) :
    sourceAt? before (c :: rest) = none := by
  have hdrop : dropFolded? "FROM".toList (c :: rest) = none := by
    have hne : ¬ (fold 'F' == fold c) := by
      rw [beq_iff_eq]
      exact fun h => hc h.symm
    exact if_neg hne
  unfold sourceAt?
  rw [hdrop]
  exact ite_self _

/-- No FROM with a name behind it begins before the line of the source. -/
def NamesNoSource (front : List Char) : Prop :=
  ∀ n < front.length,
    (sourceAt? (front.take n).reverse (front.drop n ++ fromWord)).isNone = true

/-- It can be checked whether a source is named before the line of the source. -/
instance (front : List Char) : Decidable (NamesNoSource front) :=
  inferInstanceAs (Decidable (∀ n < _, _))

/-- Nothing is found up to the line of the source, whatever its name is. -/
lemma NamesNoSource.sourceAt? {front : List Char} (h : NamesNoSource front) :
    ∀ n < (front ++ ['\n']).length, sourceAt? (((front ++ ['\n']).take n).reverse ++ [])
      ((front ++ ['\n']).drop n ++ ("FROM ".toList ++ rest)) = none := by
  intro n hn
  rw [length_append, length_singleton] at hn
  by_cases hlast : n = front.length
  · have hdrop : (front ++ ['\n']).drop n = ['\n'] := by rw [hlast, drop_left]
    rw [hdrop]
    exact sourceAt?_of_fold (by decide) _ _
  · have hn : n < front.length := by omega
    have hne : front.drop n ≠ [] := by
      rw [Ne, drop_eq_nil_iff]
      omega
    have htext : front.drop n ++ ['\n'] ++ ("FROM ".toList ++ rest) =
        front.drop n ++ fromWord ++ ' ' :: rest := by
      simp [fromWord]
    have hspace : startsWord (' ' :: rest) = false := (rfl : isWord ' ' = false)
    rw [take_append_of_le_length hn.le, drop_append_of_le_length hn.le, htext, append_nil,
      sourceAt?_line hne _ hspace, Option.isNone_iff_eq_none.1 (h n hn)]
    rfl

lemma fromLine_append (front rest : List Char) :
    front ++ fromLine ++ rest = (front ++ ['\n']) ++ ("FROM ".toList ++ rest) := by
  simp [fromLine]

lemma startsWord_front (front : List Char) :
    startsWord ((front ++ ['\n']).reverse ++ []) = false := by
  rw [reverse_append, append_nil]
  exact (rfl : isWord '\n' = false)

/-! ## Exchanging the source -/

section

variable {input front name after : List Char}

/-- A part of a text in which no source name begins stays. -/
lemma retargetFrom_append {x : List Char}
    (h : ∀ n < x.length, sourceAt? ((x.take n).reverse ++ before) (x.drop n ++ rest) = none) :
    retargetFrom input before (x ++ rest) = x ++ retargetFrom input (x.reverse ++ before) rest := by
  induction x generalizing before with
  | nil => rfl
  | cons c x ih =>
    have hfirst := h 0 (Nat.succ_pos _)
    have hrest : ∀ n < x.length,
        sourceAt? ((x.take n).reverse ++ c :: before) (x.drop n ++ rest) = none := by
      intro n hn
      have hnext := h (n + 1) (Nat.succ_lt_succ hn)
      rw [take_succ_cons, reverse_cons, append_assoc] at hnext
      exact hnext
    rw [take_zero, drop_zero, reverse_nil, nil_append] at hfirst
    rw [cons_append, retargetFrom, ← cons_append, hfirst]
    dsimp only
    rw [ih hrest, reverse_cons, append_assoc]
    rfl

lemma retargetFrom_found {s : SourceName} (h : sourceAt? before rest = some s) :
    retargetFrom input before rest = s.lead ++ input ++ s.after := by
  cases rest with
  | nil =>
    obtain ⟨hsplit, -, hlead⟩ := sourceAt?_split h
    rw [append_assoc] at hsplit
    exact absurd (append_eq_nil_iff.1 hsplit.symm).1 hlead
  | cons c rest => rw [retargetFrom, h]

/-- If a source is named before the line of the source, the text behind FROM in that line stays. -/
lemma retargetFrom_earlier (h : ∃ n, n < front.length ∧
      sourceAt? ((front.take n).reverse ++ before) (front.drop n ++ fromWord) ≠ none)
    (hrest : startsWord rest = false) :
    ∃ x, retargetFrom input before (front ++ fromWord ++ rest) = x ++ rest := by
  obtain ⟨n, hn, hsome⟩ := h
  induction front generalizing before n with
  | nil => cases hn
  | cons c front ih =>
    have hline := sourceAt?_line (cons_ne_nil c front) before hrest
    cases hsource : sourceAt? before (c :: front ++ fromWord) with
    | some s =>
      rw [hsource, Option.map_some] at hline
      refine ⟨s.lead ++ input ++ s.after, ?_⟩
      rw [retargetFrom_found hline, append_assoc (s.lead ++ input)]
      rfl
    | none =>
      rw [hsource, Option.map_none] at hline
      cases n with
      | zero => exact absurd hsource hsome
      | succ n =>
        rw [take_succ_cons, reverse_cons, append_assoc] at hsome
        obtain ⟨x, hx⟩ := ih n (Nat.lt_of_succ_lt_succ hn) hsome
        refine ⟨c :: x, ?_⟩
        rw [cons_append, cons_append] at hline ⊢
        rw [retargetFrom, hline]
        exact congrArg (c :: ·) hx

/-- Behind FROM, the source is exchanged exactly if the search takes it. -/
lemma retargetFrom_name_iff (hbefore : startsWord before = false) (hname : IsPlainName name)
    (hinput : isName input) (hafter : startsWord after = false) :
    retargetFrom input before ("FROM ".toList ++ (name ++ after)) =
      "FROM ".toList ++ (input ++ after) ↔ isName name := by
  constructor
  · intro h
    obtain ⟨c, cs, rfl⟩ := exists_cons_of_ne_nil hname.1
    obtain ⟨hword, hrest⟩ := span_append hafter (c :: cs)
    have hblank : (c :: cs ++ after).head?.any isBlank = false :=
      (hname.2 c (mem_cons_self ..)).1
    obtain ⟨hgap, hnamed⟩ := span_space hblank
    have hsource : sourceAt? before ("FROM ".toList ++ (c :: cs ++ after)) =
        if isNameStart c then
          some ⟨"FROM ".toList, (c :: cs).takeWhile isWord, (c :: cs).dropWhile isWord ++ after⟩
        else none := by
      have hboundary : wordBoundary before ("FROM ".toList ++ (c :: cs ++ after)) := by
        rw [wordBoundary, hbefore]
        rfl
      have hdrop : dropFolded? "FROM".toList ("FROM ".toList ++ (c :: cs ++ after)) =
          some (' ' :: (c :: cs ++ after)) := rfl
      unfold sourceAt?
      rw [if_pos hboundary, hdrop]
      dsimp only
      rw [hgap, hnamed, hword, hrest]
      rfl
    by_cases hstart : isNameStart c
    · -- the text behind the word characters is what follows the name
      rw [if_pos hstart] at hsource
      rw [retargetFrom_found hsource, append_assoc, append_cancel_left_eq,
        append_cancel_left_eq] at h
      have hnil : (c :: cs).dropWhile isWord = [] :=
        append_left_eq_self.1 h
      rw [isName, Bool.and_eq_true, all_eq_true]
      exact ⟨hstart, dropWhile_eq_nil_iff.1 hnil⟩
    · -- nothing is found up to the first character of the name, which stays
      rw [if_neg hstart] at hsource
      have hfold : fold c ≠ fold 'F' := by
        intro hfold
        apply hstart
        have hletter : isLetterFolded 'F' := by decide
        rw [isNameStart, isLetterFolded, hfold, ← isLetterFolded, hletter]
        rfl
      have hpass : ∀ n < ("FROM ".toList ++ [c]).length,
          sourceAt? ((("FROM ".toList ++ [c]).take n).reverse ++ before)
            (("FROM ".toList ++ [c]).drop n ++ (cs ++ after)) = none := by
        intro n hn
        change n < 6 at hn
        obtain rfl | rfl | rfl | rfl | rfl | rfl :
            n = 0 ∨ n = 1 ∨ n = 2 ∨ n = 3 ∨ n = 4 ∨ n = 5 := by omega
        · exact hsource
        · exact sourceAt?_of_fold (by decide) _ _
        · exact sourceAt?_of_fold (by decide) _ _
        · exact sourceAt?_of_fold (by decide) _ _
        · exact sourceAt?_of_fold (by decide) _ _
        · exact sourceAt?_of_fold hfold _ _
      obtain ⟨d, ds, rfl, hd, -, -⟩ := isName_head hinput []
      have hleft : retargetFrom (d :: ds) before ("FROM ".toList ++ [c] ++ (cs ++ after)) = _ :=
        retargetFrom_append hpass
      rw [append_assoc, append_assoc] at hleft
      have hchars := h.symm.trans hleft
      rw [append_cancel_left_eq] at hchars
      obtain ⟨rfl, -⟩ := List.cons.inj hchars
      exact absurd hd hstart
  · intro hisName
    rw [retargetFrom_found (sourceAt?_name hbefore hisName hafter)]
    simp only [append_assoc]

lemma eq_of_last_space {x y s t : List Char} (h : x ++ ' ' :: s = y ++ ' ' :: t) (hs : ' ' ∉ s)
    (ht : ' ' ∉ t) : s = t := by
  have hreverse : s.reverse ++ ' ' :: x.reverse = t.reverse ++ ' ' :: y.reverse := by
    simpa using congrArg List.reverse h
  rw [← mem_reverse] at hs ht
  exact reverse_inj.1 (append_mark_inj hreverse hs ht).1

lemma space_not_mem_of_isName (h : isName name) : ' ' ∉ name := by
  intro hmem
  rw [isName, Bool.and_eq_true, all_eq_true] at h
  exact absurd (h.2 ' ' hmem) (by decide +kernel)

/-- If no source is named before it, the search reaches the source line. -/
lemma retargetFrom_front (hfront : NamesNoSource front) :
    retargetFrom input [] (front ++ fromLine ++ (name ++ after)) = (front ++ ['\n']) ++
      retargetFrom input ((front ++ ['\n']).reverse ++ []) ("FROM ".toList ++ (name ++ after)) := by
  rw [fromLine_append, retargetFrom_append hfront.sourceAt?]

/-- The source is exchanged if it is the first name by the rules of the search. -/
lemma retargetFrom_line (hfront : NamesNoSource front) (hname : isName name)
    (hafter : startsWord after = false) :
    retargetFrom input [] (front ++ fromLine ++ (name ++ after)) =
      front ++ fromLine ++ (input ++ after) := by
  rw [retargetFrom_front hfront,
    retargetFrom_found (sourceAt?_name (startsWord_front front) hname hafter), fromLine_append]
  simp only [append_assoc]

/-- The source is exchanged, and nothing else, exactly if no source is named before its line and its
own name is one by the rules of the search. -/
theorem retargetFrom_line_iff (hname : IsPlainName name) (hinput : isName input)
    (hne : name ≠ input) (hafter : startsWord after = false) :
    retargetFrom input [] (front ++ fromLine ++ (name ++ after)) =
      front ++ fromLine ++ (input ++ after) ↔ NamesNoSource front ∧ isName name := by
  have hspace : startsWord (' ' :: (name ++ after)) = false :=
    (rfl : isWord ' ' = false)
  -- past the front, the matter is decided by the name
  have hpass : NamesNoSource front → (retargetFrom input [] (front ++ fromLine ++ (name ++ after)) =
      front ++ fromLine ++ (input ++ after) ↔ isName name) := by
    intro hfront
    rw [retargetFrom_front hfront, fromLine_append, append_cancel_left_eq,
      retargetFrom_name_iff (startsWord_front front) hname hinput hafter]
  by_cases hfront : NamesNoSource front
  · rw [hpass hfront]
    exact (and_iff_right hfront).symm
  · refine iff_of_false (fun h => ?_) fun h => hfront h.1
    obtain ⟨x, hx⟩ : ∃ x, retargetFrom input [] (front ++ fromWord ++ ' ' :: (name ++ after)) =
        x ++ ' ' :: (name ++ after) := by
      refine retargetFrom_earlier ?_ hspace
      unfold NamesNoSource at hfront
      push Not at hfront
      obtain ⟨n, hn, hsome⟩ := hfront
      rw [Ne, Option.isNone_iff_eq_none] at hsome
      exact ⟨n, hn, by rwa [append_nil]⟩
    have hline : ∀ rest, front ++ fromLine ++ rest = front ++ fromWord ++ ' ' :: rest := by
      intro rest
      simp [fromLine, fromWord]
    rw [hline, hline, hx] at h
    have hcancel : x ++ ' ' :: name = front ++ fromWord ++ ' ' :: input := by
      refine append_cancel_right (?_ : _ ++ after = _ ++ after)
      simpa only [append_assoc, cons_append] using h
    have hplain : ' ' ∉ name := fun hmem => absurd (hname.2 ' ' hmem).1 (by decide)
    exact hne (eq_of_last_space hcancel hplain (space_not_mem_of_isName hinput))

end

/-! ## The place behind a name -/

lemma spot?_lead (s : SourceName) :
    s.spot? = (SourceName.spot? ⟨[], [], s.after⟩).map (Prod.map (s.lead ++ s.name ++ ·) id) := by
  unfold SourceName.spot?
  dsimp only
  split
  · rfl
  · split
    · simp
    · rfl

/-- The search looks back by one character only, for a word. -/
lemma firstSpot?_before {before' : List Char} (h : startsWord before = startsWord before')
    (skip : Nat) (rest : List Char) :
    firstSpot? skip before rest = firstSpot? skip before' rest := by
  induction rest generalizing skip before before' with
  | nil => cases skip <;> rfl
  | cons c rest ih =>
    have hnext : ∀ skip, firstSpot? skip (c :: before) rest = firstSpot? skip (c :: before') rest :=
      fun skip => ih (show startsWord (c :: before) = startsWord (c :: before') from rfl) skip
    cases skip with
    | succ skip => rw [firstSpot?, firstSpot?, hnext]
    | zero =>
      have hsource : sourceAt? before (c :: rest) = sourceAt? before' (c :: rest) := by
        unfold sourceAt? wordBoundary
        rw [h]
      rw [firstSpot?, firstSpot?, hsource]
      simp only [hnext]

lemma firstSpot?_skip (m before rest : List Char) : firstSpot? m.length before (m ++ rest) =
    (firstSpot? 0 (m.reverse ++ before) rest).map (Prod.map (m ++ ·) id) := by
  induction m generalizing before with
  | nil =>
    cases hspot : firstSpot? 0 before rest with
    | none => simp only [nil_append, length_nil, reverse_nil, hspot, Option.map_none]
    | some spot =>
      simp only [nil_append, length_nil, reverse_nil, hspot, Option.map_some]
      rfl
  | cons c m ih =>
    rw [length_cons, cons_append, firstSpot?, ih, Option.map_map, reverse_cons, append_assoc]
    rfl

/-- The place for a window behind the name of a source. -/
def behindName? (after : List Char) : Option (List Char × List Char) :=
  (SourceName.spot? ⟨[], [], after⟩).or (firstSpot? 0 ['_'] after)

/-- The text behind the name of a source with a window at its place. -/
def placedBehind (window after : List Char) : List Char :=
  (behindName? after).elim after fun spot => spot.1 ++ ' ' :: window ++ spot.2

variable {front name after : List Char}

/-- Behind FROM and a name, the place depends on what follows only. -/
lemma firstSpot?_name (hbefore : startsWord before = false) (hname : isName name)
    (hafter : startsWord after = false) :
    firstSpot? 0 before ("FROM ".toList ++ (name ++ after)) =
      (behindName? after).map (Prod.map ("FROM ".toList ++ name ++ ·) id) := by
  have hsource : sourceAt? before ('F' :: ("ROM ".toList ++ (name ++ after))) =
      some ⟨"FROM ".toList, name, after⟩ := sourceAt?_name hbefore hname hafter
  have hlead := spot?_lead ⟨"FROM ".toList, name, after⟩
  change firstSpot? 0 before ('F' :: ("ROM ".toList ++ (name ++ after))) = _
  rw [firstSpot?, hsource, behindName?]
  dsimp only at hlead ⊢
  rw [hlead]
  cases SourceName.spot? ⟨[], [], after⟩ with
  | some spot => rfl
  | none =>
    -- the search goes on behind the name
    have hlength : "FROM ".toList.length + name.length - 1 = ("ROM ".toList ++ name).length := by
      rw [length_append]
      change 5 + name.length - 1 = 4 + name.length
      omega
    have hlast : startsWord (("ROM ".toList ++ name).reverse ++ 'F' :: before) =
        startsWord ['_'] := by
      obtain ⟨c, cs, hcons, -⟩ := isName_head hname []
      rw [isName, Bool.and_eq_true, all_eq_true] at hname
      have hword : IsWordText name := hname.2
      have hne : name.reverse ≠ [] := by
        rw [hcons]
        simp
      rw [reverse_append, append_assoc, hword.reverse.startsWord hne]
      decide
    rw [Option.map_none, Option.none_or]
    dsimp only
    rw [hlength, ← append_assoc, firstSpot?_skip, firstSpot?_before hlast, Option.map_map]
    rfl

/-- The place for a window in a text with the source on a line of its own. -/
lemma spotIn?_line (hfront : NamesNoSource front) (hname : isName name)
    (hafter : startsWord after = false) :
    spotIn? (front ++ fromLine ++ (name ++ after)) =
      (behindName? after).map (Prod.map (front ++ fromLine ++ name ++ ·) id) := by
  rw [fromLine_append, spotIn?, firstSpot?_append hfront.sourceAt?,
    firstSpot?_name (startsWord_front front) hname hafter, Option.map_map]
  congr 1
  funext spot
  simp [fromLine, Prod.map]

/-- A text with the source on a line of its own has the window at its place behind the name. -/
lemma placed_line (hfront : NamesNoSource front) (hname : isName name)
    (hafter : startsWord after = false) (window : List Char) :
    (spotIn? (front ++ fromLine ++ (name ++ after))).elim (front ++ fromLine ++ (name ++ after))
      (fun spot => spot.1 ++ ' ' :: window ++ spot.2) =
        front ++ fromLine ++ (name ++ placedBehind window after) := by
  rw [spotIn?_line hfront hname hafter, placedBehind]
  cases behindName? after with
  | none => rfl
  | some spot => simp

lemma placedBehind_head (window : List Char) (c : Char) (rest : List Char) :
    ∃ d rest', placedBehind window (c :: rest) = d :: rest' ∧ (d = ' ' ∨ d = c) := by
  unfold placedBehind
  cases hspot : behindName? (c :: rest) with
  | none => exact ⟨c, rest, rfl, .inr rfl⟩
  | some spot =>
    have hsplit : spot.1 ++ spot.2 = c :: rest := by
      rcases Option.or_eq_some_iff.1 hspot with hspot | ⟨-, hspot⟩
      · exact (spot?_split hspot).1
      · obtain ⟨x, y, s, hfirst, hrest, -⟩ := firstSpot?_found hspot
        rw [hfirst, hrest, append_assoc]
    obtain ⟨upTo, behind⟩ := spot
    cases upTo with
    | nil => exact ⟨' ', window ++ behind, rfl, .inl rfl⟩
    | cons d upTo =>
      obtain ⟨rfl, -⟩ := List.cons.inj hsplit
      exact ⟨d, _, rfl, .inr rfl⟩

end StreamQuery.Placement
