import StreamQuery.Proofs.FirstMatch
import StreamQuery.Proofs.WholeWords

/-!
# The place of a window

`spotIn?` is the place for a window in a finished text, so `toList_place` says exactly what is
written.  Where the source stands on a line of its own, `spotIn?_eq_source_iff` says when the place
is right behind it: the source must be a name by the rules of the search, which an upper-case topic
with a hyphen is not, and a semicolon or one of the keywords that end a source must follow.  No
earlier FROM may have a name behind it (`OnlyFrom`).
-/

namespace StreamQuery.Placement

open Text List

variable {s : SourceName} {spot : List Char × List Char}
  {before rest name tail aliasText : List Char}

/-! ## The first place -/

/-- The first place for a window in the text behind `before`, after passing over `skip` characters:
the text up to it and the text behind it. -/
def firstSpot? : (skip : Nat) → (before rest : List Char) → Option (List Char × List Char)
  | _, _, [] => none
  | skip + 1, before, c :: rest => (firstSpot? skip (c :: before) rest).map (Prod.map (c :: ·) id)
  | 0, before, c :: rest =>
    match sourceAt? before (c :: rest) with
    | none => (firstSpot? 0 (c :: before) rest).map (Prod.map (c :: ·) id)
    | some s =>
      match s.spot? with
      | some spot => some spot
      | none => (firstSpot? (s.lead.length + s.name.length - 1) (c :: before) rest).map
          (Prod.map (c :: ·) id)

/-- The place for a window in a text. -/
def spotIn? (s : List Char) : Option (List Char × List Char) :=
  firstSpot? 0 [] s

/-- A window is written at the first place, and nowhere if there is none. -/
lemma placeFrom_eq_elim (window : List Char) (skip : Nat) (before rest : List Char) :
    placeFrom window skip before rest =
      (firstSpot? skip before rest).elim rest fun spot => spot.1 ++ ' ' :: window ++ spot.2 := by
  -- a character that is passed over stands before the place, or before the text without one
  have hpass : ∀ (c : Char) (text : List Char) (spot : Option (List Char × List Char)),
      c :: spot.elim text (fun spot => spot.1 ++ ' ' :: window ++ spot.2) =
        (spot.map (Prod.map (c :: ·) id)).elim (c :: text)
          fun spot => spot.1 ++ ' ' :: window ++ spot.2 := by
    intro c text spot
    cases spot with
    | none => rfl
    | some spot => rfl
  induction rest generalizing skip before with
  | nil => cases skip <;> rfl
  | cons c rest ih =>
    cases skip with
    | succ skip => rw [placeFrom, firstSpot?, ih, hpass]
    | zero =>
      rw [placeFrom, firstSpot?]
      cases hsource : sourceAt? before (c :: rest) with
      | none =>
        dsimp only
        rw [ih, hpass]
      | some s =>
        cases hspot : s.spot? with
        | none =>
          dsimp only
          rw [hspot]
          dsimp only
          rw [ih, hpass]
        | some spot =>
          dsimp only
          rw [hspot]
          rfl

/-- What placing a window writes. -/
lemma toList_place (window sql : String) : (place window sql).toList =
    (spotIn? sql.toList).elim sql.toList fun spot => spot.1 ++ ' ' :: window.toList ++ spot.2 := by
  rw [place, String.toList_ofList, placeFrom_eq_elim, spotIn?]

lemma spot?_split (h : s.spot? = some spot) :
    spot.1 ++ spot.2 = s.lead ++ s.name ++ s.after ∧ s.lead <+: spot.1 := by
  unfold SourceName.spot? at h
  split at h
  · next aliasName after hfilter =>
    cases h
    obtain ⟨halias, -⟩ := Option.filter_eq_some_iff.1 hfilter
    rw [(alias?_split halias).1]
    exact ⟨by simp only [append_assoc], by simp only [append_assoc, prefix_append]⟩
  · split at h
    · cases h
      exact ⟨rfl, prefix_append ..⟩
    · cases h

/-- The place is behind the name of a source. -/
lemma firstSpot?_found {skip : Nat} (h : firstSpot? skip before rest = some spot) :
    ∃ x y s, spot.1 = x ++ y ∧ rest = x ++ (y ++ spot.2) ∧ y ≠ [] ∧
      sourceAt? (x.reverse ++ before) (y ++ spot.2) = some s ∧ s.spot? = some (y, spot.2) := by
  induction rest generalizing skip before spot with
  | nil => cases skip <;> cases h
  | cons c rest ih =>
    have hpass : ∀ {skip}, (firstSpot? skip (c :: before) rest).map (Prod.map (c :: ·) id) =
        some spot → ∃ x y s, spot.1 = x ++ y ∧ c :: rest = x ++ (y ++ spot.2) ∧ y ≠ [] ∧
          sourceAt? (x.reverse ++ before) (y ++ spot.2) = some s ∧
          s.spot? = some (y, spot.2) := by
      intro skip hspot
      obtain ⟨inner, hinner, rfl⟩ := Option.map_eq_some_iff.1 hspot
      obtain ⟨x, y, s, hfirst, hrest, hne, hsource, hbehind⟩ := ih hinner
      refine ⟨c :: x, y, s, congrArg _ hfirst, congrArg _ hrest, hne, ?_, hbehind⟩
      rw [reverse_cons, append_assoc]
      exact hsource
    cases skip with
    | succ skip => exact hpass h
    | zero =>
      rw [firstSpot?] at h
      split at h
      · exact hpass h
      · next s hsource =>
        split at h
        · next found hfound =>
          cases h
          obtain ⟨htext, hprefix⟩ := spot?_split hfound
          obtain ⟨hsplit, -, hlead⟩ := sourceAt?_split hsource
          refine ⟨[], spot.1, s, rfl, ?_, fun hnil => ?_, ?_, hfound⟩
          · rw [nil_append, hsplit, htext]
          · rw [hnil, prefix_nil] at hprefix
            exact hlead hprefix
          · rw [htext, ← hsplit]
            exact hsource
        · exact hpass h

/-- A part comes before the place if its source names have none and end in it. -/
lemma firstSpot?_passed {x : List Char}
    (h : ∀ n < x.length, ∀ s,
      sourceAt? ((x.take n).reverse ++ before) (x.drop n ++ rest) = some s →
        s.spot? = none ∧ n + (s.lead.length + s.name.length) ≤ x.length) :
    ∀ skip ≤ x.length, firstSpot? skip before (x ++ rest) =
      (firstSpot? 0 (x.reverse ++ before) rest).map (Prod.map (x ++ ·) id) := by
  induction x generalizing before with
  | nil =>
    intro skip hskip
    obtain rfl : skip = 0 := Nat.le_zero.1 hskip
    rw [nil_append, reverse_nil, nil_append]
    exact Option.map_id'.symm
  | cons c x ih =>
    have hrest : ∀ n < x.length, ∀ s,
        sourceAt? ((x.take n).reverse ++ c :: before) (x.drop n ++ rest) = some s →
          s.spot? = none ∧ n + (s.lead.length + s.name.length) ≤ x.length := by
      intro n hn s hs
      have hnext := h (n + 1) (Nat.succ_lt_succ hn) s
      rw [take_succ_cons, reverse_cons, append_assoc] at hnext
      obtain ⟨hspot, hlength⟩ := hnext hs
      rw [length_cons] at hlength
      exact ⟨hspot, by omega⟩
    -- a character that is passed over stands before the place
    have hpass : ∀ skip ≤ x.length,
        (firstSpot? skip (c :: before) (x ++ rest)).map (Prod.map (c :: ·) id) =
          (firstSpot? 0 ((c :: x).reverse ++ before) rest).map (Prod.map (c :: x ++ ·) id) := by
      intro skip hskip
      rw [ih hrest skip hskip, Option.map_map, reverse_cons, append_assoc]
      rfl
    intro skip hskip
    cases skip with
    | succ skip => exact hpass skip (Nat.le_of_succ_le_succ hskip)
    | zero =>
      rw [cons_append, firstSpot?]
      cases hsource : sourceAt? before (c :: (x ++ rest)) with
      | none => exact hpass 0 (Nat.zero_le _)
      | some s =>
        obtain ⟨hspot, hlength⟩ := h 0 (Nat.succ_pos _) s hsource
        dsimp only
        rw [hspot]
        rw [length_cons] at hlength
        exact hpass _ (by omega)

/-- A part of a text in which no source name begins comes before the place. -/
lemma firstSpot?_append {x : List Char}
    (h : ∀ n < x.length, sourceAt? ((x.take n).reverse ++ before) (x.drop n ++ rest) = none) :
    firstSpot? 0 before (x ++ rest) =
      (firstSpot? 0 (x.reverse ++ before) rest).map (Prod.map (x ++ ·) id) := by
  refine firstSpot?_passed (fun n hn s hs => ?_) 0 (Nat.zero_le _)
  rw [h n hn] at hs
  cases hs

/-! ## Keywords and names -/

/-- A text starts with a keyword exactly if its first word is one, ignoring case. -/
lemma startsKeyword_iff {w : List Char} (hw : IsWordText w) (hrest : startsWord rest = false) :
    startsKeyword (w ++ rest) ↔ ∃ word ∈ keywords, SameFolded w word.toList := by
  have hletters : ∀ word ∈ keywords, ∀ c ∈ word.toList, isNamePart c := by
    intro word hword
    exact all_eq_true.1 (all_eq_true.1
      (show keywords.all (fun word => word.toList.all isNamePart) = true by decide) word hword)
  rw [startsKeyword, any_eq_true]
  refine exists_congr fun word => and_congr_right fun hword => ?_
  constructor
  · intro hstarts
    cases hdrop : dropFolded? word.toList (w ++ rest) with
    | none =>
      rw [hdrop] at hstarts
      cases hstarts
    | some after =>
      rw [hdrop] at hstarts
      obtain ⟨m, hm, hfold⟩ := dropFolded?_eq_some_iff.1 hdrop
      have hafter : startsWord after = false := by simpa using hstarts
      obtain ⟨rfl, -⟩ := word_unique hm hw (hfold.isWordText (hletters word hword)) hrest hafter
      exact hfold
  · intro hfold
    rw [dropFolded?_eq_some_iff.2 ⟨w, rfl, hfold⟩]
    dsimp only
    rw [hrest, Bool.not_false]

lemma alias?_of_endsSource (h : endsSource rest) : alias? rest = none := by
  unfold endsSource at h
  unfold alias?
  dsimp only
  rw [Bool.or_eq_true, Bool.and_eq_true, beq_iff_eq] at h
  rcases h with hend | ⟨-, hkeyword⟩
  · cases rest with
    | nil => cases hend
    | cons c rest =>
      cases hend
      rfl
  · rw [hkeyword, Bool.not_true, Bool.and_false]
    rfl

/-- What a source name is for the search: a letter or an underscore, and word characters. -/
def isName (name : List Char) : Bool :=
  name.head?.any isNameStart && name.all isWord

/-- The code points of white space. -/
def blankCodes : List Nat :=
  range' 0x9 5 ++ range' 0x2000 11 ++
    [0x20, 0x85, 0xA0, 0x1680, 0x2028, 0x2029, 0x202F, 0x205F, 0x3000]

/-- White space is no part of a word. -/
lemma isWord_of_isBlank {c : Char} (h : isBlank c) : isWord c = false := by
  have hcodes : ∀ n ∈ blankCodes, isWord (Char.ofNat n) = false := by decide +kernel
  have hc : c.toNat ∈ blankCodes := by
    simp only [isBlank, Bool.or_eq_true, Bool.and_eq_true, decide_eq_true_eq, beq_iff_eq] at h
    simp only [blankCodes, mem_append, mem_range'_1, mem_cons, not_mem_nil, or_false]
    omega
  rw [← Char.ofNat_toNat c]
  exact hcodes _ hc

/-- A word character is no white space. -/
lemma isBlank_of_isWord {c : Char} (h : isWord c) : isBlank c = false := by
  rw [← Bool.not_eq_true]
  intro hblank
  rw [isWord_of_isBlank hblank] at h
  cases h

/-- One blank in front is all the white space, if none follows. -/
lemma span_space (hrest : rest.head?.any isBlank = false) :
    (' ' :: rest).takeWhile isBlank = [' '] ∧ (' ' :: rest).dropWhile isBlank = rest :=
  have hspace : ∀ c ∈ [' '], isBlank c := all_eq_true.1 (by decide)
  ⟨takeWhile_run hspace hrest, dropWhile_run hspace hrest⟩

/-- A name begins with no white space, whatever follows. -/
lemma isName_head (h : isName name) (rest : List Char) :
    ∃ c cs, name = c :: cs ∧ isNameStart c ∧ isBlank c = false ∧
      (name ++ rest).head? = some c := by
  rw [isName, Bool.and_eq_true, all_eq_true] at h
  cases name with
  | nil => cases h.1
  | cons c cs =>
    exact ⟨c, cs, rfl, h.1, isBlank_of_isWord (h.2 c (mem_cons_self ..)), rfl⟩

/-- A name behind FROM is found. -/
lemma sourceAt?_name (hbefore : startsWord before = false) (hname : isName name)
    (hrest : startsWord rest = false) :
    sourceAt? before ("FROM ".toList ++ (name ++ rest)) = some ⟨"FROM ".toList, name, rest⟩ := by
  obtain ⟨c, cs, hcons, hstart, hblank, hhead⟩ := isName_head hname rest
  rw [isName, Bool.and_eq_true, all_eq_true] at hname
  have hboundary : wordBoundary before ("FROM ".toList ++ (name ++ rest)) := by
    rw [wordBoundary, hbefore]
    rfl
  have hfrom : dropFolded? "FROM".toList ("FROM ".toList ++ (name ++ rest)) =
      some (' ' :: (name ++ rest)) := rfl
  have hfirst : (name ++ rest).head?.any isBlank = false := by
    rw [hhead]
    exact hblank
  obtain ⟨hgap, hnamed⟩ := span_space hfirst
  unfold sourceAt?
  rw [if_pos hboundary, hfrom]
  dsimp only
  rw [hgap, hnamed, hhead, Option.any_some, hstart, takeWhile_run hname.2 hrest,
    dropWhile_run hname.2 hrest]
  rfl

lemma startsKeyword_alias (hrest : startsWord rest = false) :
    startsKeyword ('o' :: rest) = false := by
  rw [← Bool.not_eq_true, show 'o' :: rest = ['o'] ++ rest from rfl,
    startsKeyword_iff (all_eq_true.1 (by decide +kernel)) hrest]
  decide

/-- A name with an alias that is no keyword has a place right behind it, if what follows ends the
source. -/
lemma spot?_aliased {lead a : List Char} (hfirst : (a.head?.any fun c => c.isAlpha || c == '_'))
    (ha : IsWordText a) (hkeyword : ¬ ∃ word ∈ keywords, SameFolded a word.toList)
    (htail : startsWord tail = false) (hends : endsSource tail) :
    SourceName.spot? ⟨lead, name, ' ' :: a ++ tail⟩ =
      some (lead ++ (name ++ ' ' :: a), tail) := by
  obtain ⟨c, a, rfl⟩ : ∃ c cs, a = c :: cs := by
    cases a with
    | nil => cases hfirst
    | cons c cs => exact ⟨c, cs, rfl⟩
  have hblank : (c :: a ++ tail).head?.any isBlank = false :=
    isBlank_of_isWord (ha c (mem_cons_self ..))
  obtain ⟨hgap, hnamed⟩ := span_space hblank
  have hstarts : startsKeyword (c :: a ++ tail) = false := by
    rw [← Bool.not_eq_true, startsKeyword_iff ha htail]
    exact hkeyword
  have hfound : alias? (' ' :: (c :: a ++ tail)) = some (' ' :: c :: a, tail) := by
    unfold alias?
    dsimp only
    rw [hgap, hnamed, hstarts, takeWhile_run ha htail, dropWhile_run ha htail]
    exact if_pos (by rw [Bool.not_false, Bool.and_true]; exact hfirst)
  unfold SourceName.spot?
  dsimp only
  rw [cons_append, hfound, Option.filter_some, if_pos hends]
  simp only [append_assoc]

/-- The texts that the primary alias takes in a FROM clause. -/
def IsAliasText (aliasText : List Char) : Prop :=
  aliasText = [] ∨ aliasText = [' ', 'o']

/-- A name with its alias has a place behind it, if what follows ends it. -/
lemma spot?_name {lead name aliasText tail : List Char} (halias : IsAliasText aliasText)
    (htail : startsWord tail = false) (hends : endsSource tail) :
    SourceName.spot? ⟨lead, name, aliasText ++ tail⟩ =
      some (lead ++ (name ++ aliasText), tail) := by
  rcases halias with rfl | rfl
  · unfold SourceName.spot?
    rw [nil_append, alias?_of_endsSource hends, append_nil]
    exact if_pos hends
  · exact spot?_aliased (a := ['o']) (by decide) (all_eq_true.1 (by decide)) (by decide) htail
      hends

lemma spot?_ends (h : s.spot? = some spot) : endsSource spot.2 := by
  unfold SourceName.spot? at h
  split at h
  · next aliasName after hfilter =>
    cases h
    exact (Option.filter_eq_some_iff.1 hfilter).2
  · split at h
    · next hends =>
      cases h
      exact hends
    · cases h

lemma endsSource_head (h : endsSource rest) : ∃ c cs, rest = c :: cs ∧ (c = ';' ∨ isBlank c) := by
  cases rest with
  | nil => cases h
  | cons c cs =>
    rw [endsSource, Bool.or_eq_true, Bool.and_eq_true, beq_iff_eq] at h
    exact ⟨c, cs, rfl, h.imp Option.some.inj And.left⟩

/-- A word behind white space ends a source exactly if it is a keyword, ignoring case. -/
lemma endsSource_word_iff {c : Char} {w : List Char} (hc : isBlank c) (hw : IsWordText w)
    (hne : w ≠ []) (hrest : startsWord rest = false) :
    endsSource (c :: (w ++ rest)) ↔ ∃ word ∈ keywords, SameFolded w word.toList := by
  obtain ⟨d, w, rfl⟩ := exists_cons_of_ne_nil hne
  have hd : ¬ isBlank d := Bool.eq_false_iff.1 (isBlank_of_isWord (hw d (mem_cons_self ..)))
  have hsemicolon : ((c :: (d :: w ++ rest)).head? == some ';') = false := by
    rw [beq_eq_false_iff_ne]
    rintro hhead
    cases hhead
    cases hc
  have hdrop : (c :: (d :: w ++ rest)).dropWhile isBlank = d :: w ++ rest := by
    rw [dropWhile_cons_of_pos hc, cons_append, dropWhile_cons_of_neg hd]
  rw [← startsKeyword_iff hw hrest, endsSource, hsemicolon, hdrop, head?_cons, Option.any_some,
    hc, Bool.false_or, Bool.true_and]

/-! ## A source on a line of its own -/

/-- A source name: not empty, without white space, commas and semicolons. -/
def IsPlainName (name : List Char) : Prop :=
  name ≠ [] ∧ ∀ c ∈ name, isBlank c = false ∧ c ≠ ',' ∧ c ≠ ';'

/-- It can be checked whether a source name is plain. -/
instance (name : List Char) : Decidable (IsPlainName name) :=
  decidable_of_iff (name ≠ [] ∧ name.all (fun c => !isBlank c && (c != ',' && c != ';')) = true)
    (by simp [IsPlainName])

/-- The line of a source begins like this. -/
def fromLine : List Char :=
  ['\n', 'F', 'R', 'O', 'M', ' ']

/-- Up to the end of the source, no other FROM has a name behind it. -/
def OnlyFrom (front source tail : List Char) : Prop :=
  ∀ n < (front ++ fromLine ++ source).length, n ≠ front.length + 1 →
    (sourceAt? ((front ++ fromLine ++ source ++ tail).take n).reverse
      ((front ++ fromLine ++ source ++ tail).drop n)).isNone = true

/-- It can be checked whether there is only one FROM with a name behind it. -/
instance (front source tail : List Char) : Decidable (OnlyFrom front source tail) :=
  inferInstanceAs (Decidable (∀ n < _, _ → _))

lemma alias?_head {u aliasName after : List Char} (h : alias? u = some (aliasName, after)) :
    aliasName.head?.any isBlank := by
  unfold alias? at h
  dsimp only at h
  split at h
  · next hfound =>
    cases h
    cases u with
    | nil => cases hfound
    | cons c u =>
      cases hc : isBlank c with
      | false =>
        rw [takeWhile_cons_of_neg (by rw [hc]; decide)] at hfound
        cases hfound
      | true =>
        rw [takeWhile_cons_of_pos hc]
        exact hc
  · cases h

/-- The text up to the first white space. -/
lemma takeWhile_nonblank {m after : List Char} (hm : ∀ c ∈ m, isBlank c = false)
    (hafter : after = [] ∨ after.head?.any isBlank) :
    (m ++ after).takeWhile (fun c => !isBlank c) = m := by
  have hall : ∀ c ∈ m, (!isBlank c) := fun c hc => by rw [hm c hc]; rfl
  refine takeWhile_run hall ?_
  rcases hafter with rfl | hblank
  · rfl
  · cases after with
    | nil => rfl
    | cons c after =>
      have hc : isBlank c := hblank
      simp [hc]

/-- If the place is right behind a plain name with its alias, the name is one for the search. -/
lemma isName_of_spot? (hname : IsPlainName name) (halias : IsAliasText aliasText)
    (hsource : sourceAt? before ("FROM ".toList ++ (name ++ aliasText) ++ tail) = some s)
    (hspot : s.spot? = some ("FROM ".toList ++ (name ++ aliasText), tail)) : isName name := by
  obtain ⟨hne, hplain⟩ := hname
  obtain ⟨c, cs, rfl⟩ := exists_cons_of_ne_nil hne
  have hblank : (c :: (cs ++ aliasText ++ tail)).head?.any isBlank = false :=
    (hplain c (mem_cons_self ..)).1
  obtain ⟨hgap, hnamed⟩ := span_space hblank
  have hfrom : dropFolded? "FROM".toList ("FROM ".toList ++ (c :: cs ++ aliasText) ++ tail) =
      some (' ' :: (c :: (cs ++ aliasText ++ tail))) := rfl
  unfold sourceAt? at hsource
  rw [hfrom] at hsource
  dsimp only at hsource
  rw [hgap, hnamed] at hsource
  split at hsource
  · split at hsource
    · next hstart =>
      have hstart : isNameStart c := hstart
      -- what the search takes for the name, and what it takes behind it
      have hword : ∃ behind, s.name ++ behind = c :: cs ++ aliasText ∧
          (behind = [] ∨ behind.head?.any isBlank) := by
        have hlead : s.lead = "FROM ".toList := by
          cases hsource
          rfl
        unfold SourceName.spot? at hspot
        rw [hlead] at hspot
        split at hspot
        · next aliasName after hfilter =>
          obtain ⟨hupTo, -⟩ := Prod.mk.inj (Option.some.inj hspot)
          rw [append_assoc] at hupTo
          exact ⟨aliasName, append_cancel_left hupTo,
            .inr (alias?_head (Option.filter_eq_some_iff.1 hfilter).1)⟩
        · split at hspot
          · obtain ⟨hupTo, -⟩ := Prod.mk.inj (Option.some.inj hspot)
            exact ⟨[], by rw [append_nil]; exact append_cancel_left hupTo, .inl rfl⟩
          · cases hspot
      obtain ⟨behind, hbehind, hbehind'⟩ := hword
      have hsname : s.name = (c :: (cs ++ aliasText ++ tail)).takeWhile isWord := by
        cases hsource
        rfl
      have hwords : ∀ d ∈ s.name, isWord d := by
        rw [hsname]
        exact all_eq_true.1 all_takeWhile
      have hnonblank : ∀ d ∈ s.name, isBlank d = false := fun d hd =>
        isBlank_of_isWord (hwords d hd)
      have haliasText : aliasText = [] ∨ aliasText.head?.any isBlank := by
        rcases halias with rfl | rfl
        · exact .inl rfl
        · exact .inr (by decide)
      have hsame : s.name = c :: cs := by
        rw [← takeWhile_nonblank hnonblank hbehind', hbehind,
          takeWhile_nonblank (fun d hd => (hplain d hd).1) haliasText]
      rw [isName, Bool.and_eq_true, all_eq_true]
      exact ⟨hstart, hsame ▸ hwords⟩
    · cases hsource
  · cases hsource

/-- No source ends inside a plain name with its alias. -/
lemma endsSource_inside {z : List Char} (hname : IsPlainName name) (halias : IsAliasText aliasText)
    (htail : startsWord tail = false) (hz : z <:+ name ++ aliasText) (hne : z ≠ []) :
    endsSource (z ++ tail) = false := by
  -- the characters of the name end no source
  have hinside : ∀ t rest, t <:+ name → t ≠ [] → endsSource (t ++ rest) = false := by
    intro t rest ht hne
    obtain ⟨d, t, rfl⟩ := exists_cons_of_ne_nil hne
    have hplain := hname.2 d (ht.subset (mem_cons_self ..))
    rw [← Bool.not_eq_true]
    intro hends
    obtain ⟨c, cs, hhead, hc⟩ := endsSource_head hends
    obtain ⟨rfl, -⟩ := List.cons.inj hhead
    rcases hc with rfl | hc
    · exact hplain.2.2 rfl
    · rw [hplain.1] at hc
      cases hc
  rcases halias with rfl | rfl
  · rw [append_nil] at hz
    exact hinside z tail hz hne
  · rw [show name ++ [' ', 'o'] = name ++ [' '] ++ ['o'] by simp, suffix_concat_iff] at hz
    rcases hz with rfl | ⟨t, rfl, ht⟩
    · exact absurd rfl hne
    · rw [suffix_concat_iff] at ht
      rcases ht with rfl | ⟨t, rfl, ht⟩
      · rfl
      · cases t with
        | nil =>
          have hkeyword := startsKeyword_alias htail
          unfold endsSource
          exact hkeyword
        | cons d t =>
          have hfalse := hinside (d :: t) ([' ', 'o'] ++ tail) ht (by simp)
          rwa [show d :: t ++ [' '] ++ ['o'] ++ tail = d :: t ++ ([' ', 'o'] ++ tail) by simp]

/-- A place behind the FROM of a plain name is not before the end of the source. -/
lemma spot?_beyond {y v : List Char} (hname : IsPlainName name) (halias : IsAliasText aliasText)
    (htail : startsWord tail = false)
    (htext : "FROM ".toList ++ (name ++ aliasText) ++ tail = y ++ v) (hlong : 5 ≤ y.length)
    (hends : endsSource v) :
    ∃ z, y = "FROM ".toList ++ (name ++ aliasText) ++ z ∧ tail = z ++ v := by
  rcases append_eq_append_iff.1 htext with ⟨z, hy, htail'⟩ | ⟨z, hsource, rfl⟩
  · exact ⟨z, hy, htail'⟩
  · -- what of the source stands behind the place is empty
    have hlength := congrArg List.length hsource
    have hfrom : ("FROM ".toList).length = 5 := rfl
    simp only [length_append, hfrom] at hlength
    have hz : z <:+ name ++ aliasText := suffix_of_suffix_length_le
      (hsource ▸ suffix_append y z) (suffix_append ..) (by
        rw [length_append]
        omega)
    by_cases hne : z = []
    · subst hne
      exact ⟨[], by rw [hsource, append_nil, append_nil], rfl⟩
    · rw [endsSource_inside hname halias htail hz hne] at hends
      cases hends

lemma sourceAt?_lead {u : List Char} (h : sourceAt? before u = some s) : 5 ≤ s.lead.length := by
  unfold sourceAt? at h
  split at h
  · split at h
    · cases h
    · next behind hbehind =>
      obtain ⟨m, rfl, hlength, -⟩ := dropFolded?_split hbehind
      have hfour : m.length = 4 := hlength
      dsimp only at h
      split at h
      · next hfound =>
        cases h
        rw [Bool.and_eq_true, Bool.not_eq_true', isEmpty_eq_false_iff] at hfound
        have hgap := length_pos_iff.2 hfound.1
        rw [length_append, length_take, length_append]
        omega
      · cases h
  · cases h

section

variable {front name aliasText tail : List Char}

/-- A place is not before the end of the only source; right behind it, the source is a name. -/
lemma spotIn?_beyond (hname : IsPlainName name) (halias : IsAliasText aliasText)
    (htail : startsWord tail = false) (honly : OnlyFrom front (name ++ aliasText) tail)
    {spot : List Char × List Char}
    (h : spotIn? (front ++ fromLine ++ (name ++ aliasText) ++ tail) = some spot) :
    ∃ z, spot.1 = front ++ fromLine ++ (name ++ aliasText) ++ z ∧ tail = z ++ spot.2 ∧
      (z = [] → isName name) ∧ endsSource spot.2 := by
  obtain ⟨x, y, s, hfirst, htext, hne, hsource, hspot⟩ := firstSpot?_found h
  rw [append_nil] at hsource
  have hends := spot?_ends hspot
  have hnone := honly x.length
  rw [htext, take_left, drop_left, hsource] at hnone
  by_cases hinside : x.length < (front ++ fromLine ++ (name ++ aliasText)).length
  · -- the place is that of the FROM of the line
    have hx : x.length = front.length + 1 := by
      by_contra hother
      cases hnone hinside hother
    have hparts : (front ++ ['\n']) ++ ("FROM ".toList ++ (name ++ aliasText) ++ tail) =
        x ++ (y ++ spot.2) := by
      rw [← htext]
      simp [fromLine]
    obtain ⟨rfl, hrest⟩ := append_inj hparts (by rw [hx, length_append]; rfl)
    have hlong : 5 ≤ y.length :=
      Nat.le_trans (sourceAt?_lead hsource) (spot?_split hspot).2.length_le
    obtain ⟨z, hy, htail'⟩ := spot?_beyond hname halias htail hrest hlong hends
    refine ⟨z, ?_, htail', fun hz => ?_, hends⟩
    · rw [hfirst, hy]
      simp [fromLine]
    · subst hz
      rw [append_nil] at hy
      rw [hy] at hspot hsource
      exact isName_of_spot? hname halias hsource hspot
  · -- the place is that of a later FROM
    obtain ⟨z, rfl⟩ : front ++ fromLine ++ (name ++ aliasText) <+: x :=
      prefix_of_prefix_length_le ⟨tail, rfl⟩ ⟨y ++ spot.2, htext.symm⟩ (by omega)
    rw [append_assoc _ z] at htext
    refine ⟨z ++ y, ?_, ?_, fun hz => absurd (append_eq_nil_iff.1 hz).2 hne, hends⟩
    · rw [hfirst, append_assoc _ z]
    · rw [append_cancel_left htext, append_assoc]

/-- The place is right behind the source exactly if it is a name and what follows ends it. -/
theorem spotIn?_eq_source_iff (hname : IsPlainName name) (halias : IsAliasText aliasText)
    (htail : startsWord tail = false) (honly : OnlyFrom front (name ++ aliasText) tail) :
    spotIn? (front ++ fromLine ++ (name ++ aliasText) ++ tail) =
        some (front ++ fromLine ++ (name ++ aliasText), tail) ↔
      isName name ∧ endsSource tail := by
  constructor
  · intro hspot
    obtain ⟨z, hfirst, -, hisName, hends⟩ := spotIn?_beyond hname halias htail honly hspot
    exact ⟨hisName (self_eq_append_right.1 hfirst), hends⟩
  · rintro ⟨hisName, hends⟩
    have hparts : front ++ fromLine ++ (name ++ aliasText) ++ tail =
        (front ++ ['\n']) ++ ("FROM ".toList ++ (name ++ (aliasText ++ tail))) := by
      simp [fromLine]
    have hbefore : startsWord ((front ++ ['\n']).reverse ++ []) = false := by
      rw [reverse_append]
      exact (rfl : isWord '\n' = false)
    have hrest : startsWord (aliasText ++ tail) = false := by
      rcases halias with rfl | rfl
      · exact htail
      · exact (rfl : isWord ' ' = false)
    have hpass : ∀ n < (front ++ ['\n']).length,
        sourceAt? (((front ++ ['\n']).take n).reverse ++ [])
          ((front ++ ['\n']).drop n ++ ("FROM ".toList ++ (name ++ (aliasText ++ tail)))) =
        none := by
      intro n hn
      have hnone := honly n (by simp [fromLine] at hn ⊢; omega) (by simp at hn; omega)
      rw [hparts, take_append_of_le_length (Nat.le_of_lt hn),
        drop_append_of_le_length (Nat.le_of_lt hn)] at hnone
      rw [append_nil]
      exact Option.isNone_iff_eq_none.1 hnone
    have hfirst : firstSpot? 0 ((front ++ ['\n']).reverse ++ [])
        ("FROM ".toList ++ (name ++ (aliasText ++ tail))) =
        some ("FROM ".toList ++ (name ++ aliasText), tail) := by
      have hsource := sourceAt?_name hbefore hisName hrest
      have hspot := @spot?_name "FROM ".toList name _ _ halias htail hends
      rw [show "FROM ".toList ++ (name ++ (aliasText ++ tail)) =
        'F' :: ("ROM ".toList ++ (name ++ (aliasText ++ tail))) from rfl] at hsource ⊢
      rw [firstSpot?, hsource]
      dsimp only
      rw [hspot]
    rw [hparts, spotIn?, firstSpot?_append hpass, hfirst]
    simp [fromLine]

end

end StreamQuery.Placement
