import StreamQuery.Proofs.StyledTwice

/-!
# New names in a styled clause

What follows AS is the new name of a column, where no key path is to be written.  A name without
quotation marks is kept (`run_named`).  In quotation marks a name is edited as if it stood alone
(`run_quoted`): the edits for the keys pass over a quoted key, but the edit for the bare word of key
paths looks neither at quotation marks nor beyond them.
-/

namespace StreamQuery

open Text List WordEdit

variable {g q : Char} {u x : List Char} {e : WordEdit}

namespace WordEdit

/-! ## What an edit looks at -/

/-- A one-word edit that passes over new names and sees neighbours only. -/
structure LooksNear (e : WordEdit) : Prop where
  named : ∀ before after, renames before = true → e.accept before after = false
  /-- What follows a character other than the first of an arrow does not matter. -/
  ahead : ∀ before s g rest, g ≠ '-' → e.accept before (s ++ g :: rest) = e.accept before (s ++ [g])
  behind : ∀ near q far after, isQuote q = true →
    e.accept (near ++ q :: far) after = e.accept (near ++ [q]) after

lemma looksNear_ofLone (key : List Char) : LooksNear (ofLone key) where
  named before after h := by
    unfold ofLone
    simp [h]
  ahead before s g rest hg := by
    have harrow : List.isPrefixOf ['-', '>'] (s ++ g :: rest) =
        List.isPrefixOf ['-', '>'] (s ++ [g]) := by
      obtain _ | ⟨c, _ | ⟨d, s⟩⟩ := s
      · have hne : ('-' == g) = false := beq_false_of_ne (Ne.symm hg)
        simp only [nil_append, isPrefixOf_cons_cons, hne, Bool.false_and]
      · simp only [cons_append, nil_append, isPrefixOf_cons_cons,
          isPrefixOf_nil_left]
      · simp only [cons_append, isPrefixOf_cons_cons, isPrefixOf_nil_left]
    unfold ofLone
    simp only [harrow]
  behind near q far after hq := by
    unfold ofLone
    simp only [renames_behind hq]

lemma looksNear_ofKey (key : List Char) : LooksNear (ofKey [] key) where
  named before after h := by
    unfold ofKey
    simp [h]
  ahead before s g rest _ := by
    have hhead : (s ++ g :: rest).head? = (s ++ [g]).head? := by
      cases s <;> rfl
    unfold ofKey unprefixed
    simp only [hhead]
  behind near q far after hq := by
    unfold ofKey
    simp only [renames_behind hq, unprefixed_behind hq]

section

variable {e : WordEdit} (he : IsSingle e) {key : List Char} (hpath : WritesPath e key)
  (hnear : LooksNear e) {before : List Char}

include he hpath hnear

/-- A text is edited up to a character between words as if it ended there. -/
lemma substituteFrom_upTo (hg : isWord g = false) (hdash : g ≠ '-') (rest : List Char)
    (hfresh : Fresh before x) :
    substituteFrom e.rule 0 before (x ++ g :: rest) =
      substituteFrom e.rule 0 before (x ++ [g]) ++
        substituteFrom e.rule 0 (g :: (x.reverse ++ before)) rest := by
  have hgap : ∀ (before rest : List Char) {c : Char}, isWord c = false →
      substituteFrom e.rule 0 before (c :: rest) =
        c :: substituteFrom e.rule 0 (c :: before) rest :=
    fun before rest c hc => substituteFrom_between hpath.whole hc before rest
  have hend : ∀ before : List Char, substituteFrom e.rule 0 before [] = [] :=
    fun before => substituteFrom_nil hpath.whole before
  -- word by word: whether a word is accepted is decided before `g` ends the text
  induction x using text_induction generalizing before with
  | nil =>
    rw [nil_append, nil_append, hgap _ _ hg, hgap _ _ hg, hend]
    rfl
  | gap c x hc ih =>
    have hnext : Fresh (c :: before) x := fun _ => hc
    rw [cons_append, cons_append, hgap _ _ hc, hgap _ _ hc, ih hnext]
    simp
  | word w x hw hne hx ih =>
    have hbefore := hfresh (hw.startsWord hne x)
    have hnext : Fresh (w.reverse ++ before) x := fresh_of_not_startsWord hx
    have hstart : ∀ z : List Char, startsWord (x ++ g :: z) = false := fun z =>
      startsWord_append hx hg
    rw [append_assoc, append_assoc]
    by_cases hsame : SameFolded w e.word
    · rw [run_found hpath.whole hbefore hsame (hstart rest),
        run_found hpath.whole hbefore hsame (hstart []), hnear.ahead before x g rest hdash,
        ih hnext]
      simp
    · have hnone : ∀ z after, ¬Reads e.word (w ++ (x ++ g :: z)) after := fun z after hreads =>
        hsame ((he.reads_iff hw (hstart z)).1 ⟨after, hreads⟩)
      rw [run_word hpath.whole hw (hnone rest), run_word hpath.whole hw (hnone []), ih hnext]
      simp

omit he hpath in
/-- A text behind a quotation mark is edited as if it began with the mark. -/
lemma substituteFrom_quote (hq : isQuote q) (skip : Nat) (near far s : List Char) :
    substituteFrom e.rule skip (near ++ q :: far) s =
      substituteFrom e.rule skip (near ++ [q]) s := by
  have hword : ∀ u : List Char, startsWord (u ++ q :: far) = startsWord (u ++ [q]) := by
    intro u
    cases u <;> rfl
  have hafter : ∀ near rest : List Char, afterWord? e.word (near ++ q :: far) rest =
      afterWord? e.word (near ++ [q]) rest := by
    intro near rest
    unfold afterWord? wordBoundary
    simp only [← append_assoc, hword]
  have hrule : ∀ near rest : List Char, e.rule (near ++ q :: far) rest =
      e.rule (near ++ [q]) rest := by
    intro near rest
    unfold rule wordRule
    simp only [hafter, hnear.behind near q far _ hq]
  induction s generalizing skip near with
  | nil =>
    cases skip with
    | zero =>
      unfold substituteFrom
      rw [hrule]
    | succ skip => rfl
  | cons c s ih =>
    cases skip with
    | zero =>
      have hnext := fun skip => ih skip (c :: near)
      unfold substituteFrom
      rw [hrule]
      simp only [cons_append] at hnext
      simp only [hnext]
    | succ skip => exact ih skip (c :: near)

/-- A new name without quotation marks is kept. -/
lemma run_named (hg : isBlank g) (hlead : renames (x ++ [g]).reverse)
    {w rest : List Char} (hw : IsWordText w) (hrest : startsWord rest = false) :
    e.run (x ++ [g] ++ (w ++ rest)) = e.run (x ++ [g]) ++
      (w ++ substituteFrom e.rule 0 (w.reverse ++ (x ++ [g]).reverse) rest) := by
  have hgap : isWord g = false := Placement.isWord_of_isBlank hg
  have hdash : g ≠ '-' := by
    rintro rfl
    exact absurd hg (by decide)
  have htext : x ++ [g] ++ (w ++ rest) = x ++ g :: (w ++ rest) := by simp
  have hbehind : g :: (x.reverse ++ []) = (x ++ [g]).reverse := by simp
  have hfresh : Fresh [] x := fun _ => rfl
  have hname : substituteFrom e.rule 0 (x ++ [g]).reverse (w ++ rest) =
      w ++ substituteFrom e.rule 0 (w.reverse ++ (x ++ [g]).reverse) rest := by
    by_cases hsame : SameFolded w e.word
    · have hbefore : startsWord (x ++ [g]).reverse = false := by
        rw [← hbehind]
        exact hgap
      rw [run_found hpath.whole hbefore hsame hrest, hnear.named _ _ hlead]
      rfl
    · refine run_word hpath.whole hw fun after hreads => hsame ?_
      exact (he.reads_iff hw hrest).1 ⟨after, hreads⟩
  unfold run substitute
  rw [htext, substituteFrom_upTo he hpath hnear hgap hdash (w ++ rest) hfresh, hbehind, hname]

end

/-- What ends with a character between words does so when it is edited. -/
lemma Rewrites.last {key : List Char} (hpath : WritesPath e key) {t : List Char}
    (h : Rewrites e (x ++ [g]) t) (hg : isWord g = false) :
    ∃ y, t = y ++ [g] ∧ Behind e (x ++ [g]).reverse (y ++ [g]).reverse := by
  have hbehind : Behind e (x ++ [g]).reverse t.reverse := by
    have hall := h.behind hpath.whole .nil fun _ => rfl
    rwa [append_nil, append_nil] at hall
  have hlast : Behind e (g :: x.reverse) t.reverse := by
    rwa [reverse_append] at hbehind
  obtain ⟨current, hcurrent, -⟩ := hlast.of_gap hpath hg
  have ht : t = current.reverse ++ [g] := by
    rw [← reverse_reverse t, hcurrent, reverse_cons]
  exact ⟨current.reverse, ht, ht ▸ hbehind⟩

/-- An edit of a binding without an alias. -/
structure IsPlainEdit (e : WordEdit) (key : List Char) : Prop where
  single : IsSingle e
  writes : WritesPath e key
  near : LooksNear e
  tail : KeepsTail e ['s', 'a']

lemma IsPlainEdit.rewrites {key : List Char} (he : IsPlainEdit e key) (s : List Char) :
    Rewrites e s (e.run s) :=
  rewrites_run he.writes.whole fun _ => rfl

/-- A run of edits keeps a new name without quotation marks. -/
lemma foldl_named {es : List WordEdit} (hes : ∀ e ∈ es, ∃ key, IsPlainEdit e key)
    {rest w : List Char} (hg : isBlank g) (hlead : renames (x ++ [g]).reverse)
    (hw : IsWordText w) (hrest : startsWord rest = false) :
    ∃ rest', es.foldl (fun s e => e.run s) (x ++ [g] ++ (w ++ rest)) =
      es.foldl (fun s e => e.run s) (x ++ [g]) ++ (w ++ rest') ∧ rest'.head? = rest.head? := by
  induction es generalizing x rest with
  | nil => exact ⟨rest, rfl, rfl⟩
  | cons e es ih =>
    obtain ⟨⟨key, he⟩, hes⟩ := forall_mem_cons.1 hes
    -- the next edit finds AS where this one has left it
    have hahead : Rewrites e rest
        (substituteFrom e.rule 0 (w.reverse ++ (x ++ [g]).reverse) rest) :=
      rewrites_run he.writes.whole (fresh_of_not_startsWord hrest)
    obtain ⟨y, hy, hbehind⟩ :=
      (he.rewrites (x ++ [g])).last he.writes (Placement.isWord_of_isBlank hg)
    obtain ⟨rest', htext, hhead⟩ := ih hes (hbehind.renames he.writes he.tail hlead)
      ((hahead.startsWord_eq he.writes).trans hrest)
    refine ⟨rest', ?_, hhead.trans (hahead.head?_eq he.writes hrest)⟩
    rw [foldl_cons, foldl_cons, run_named he.single he.writes he.near hg hlead hw hrest, hy, htext]

/-- A name in quotation marks is edited as if it stood alone. -/
lemma run_quoted {key : List Char} (he : IsPlainEdit e key) (hq : isQuote q)
    (x u rest : List Char) : ∃ y v rest',
      e.run (x ++ [q]) = y ++ [q] ∧ e.run (q :: (u ++ [q])) = q :: (v ++ [q]) ∧
      e.run (x ++ q :: (u ++ q :: rest)) = y ++ q :: (v ++ q :: rest') := by
  have hgap := isWord_of_isQuote hq
  have hdash := (isAlphabetic_of_isQuote hq).2.2
  have hfresh : Fresh (q :: (x.reverse ++ [])) u := fun _ => hgap
  have hinner : Rewrites e (u ++ [q]) (substituteFrom e.rule 0 [q] (u ++ [q])) :=
    rewrites_run he.writes.whole fun _ => hgap
  obtain ⟨y, hy, -⟩ := (he.rewrites (x ++ [q])).last he.writes hgap
  obtain ⟨v, hv, -⟩ := hinner.last he.writes hgap
  refine ⟨y, v, substituteFrom e.rule 0 (q :: (u.reverse ++ q :: (x.reverse ++ []))) rest,
    hy, ?_, ?_⟩
  · rw [← hv]
    exact substituteFrom_between he.writes.whole hgap [] (u ++ [q])
  · have hbehind := substituteFrom_quote he.near hq 0 [] (x.reverse ++ []) (u ++ [q])
    rw [nil_append, nil_append, hv] at hbehind
    have hlead := substituteFrom_upTo he.single he.writes he.near hgap hdash (u ++ q :: rest)
      (fun _ => rfl : Fresh [] x)
    rw [substituteFrom_upTo he.single he.writes he.near hgap hdash rest hfresh, hbehind] at hlead
    have hfirst : substituteFrom e.rule 0 [] (x ++ [q]) = y ++ [q] := hy
    rw [hfirst] at hlead
    unfold run substitute
    rw [hlead]
    simp

/-- A run of edits edits a name in quotation marks as if it stood alone. -/
lemma foldl_quoted {es : List WordEdit} (hes : ∀ e ∈ es, ∃ key, IsPlainEdit e key)
    (hq : isQuote q) (x u rest : List Char) : ∃ y v rest',
      es.foldl (fun s e => e.run s) (x ++ [q]) = y ++ [q] ∧
      es.foldl (fun s e => e.run s) (q :: (u ++ [q])) = q :: (v ++ [q]) ∧
      es.foldl (fun s e => e.run s) (x ++ q :: (u ++ q :: rest)) = y ++ q :: (v ++ q :: rest') := by
  induction es generalizing x u rest with
  | nil => exact ⟨x, u, rest, rfl, rfl, rfl⟩
  | cons e es ih =>
    obtain ⟨⟨key, he⟩, hes⟩ := forall_mem_cons.1 hes
    obtain ⟨y, v, rest', hy, hv, htext⟩ := run_quoted he hq x u rest
    simp only [foldl_cons, hy, hv, htext]
    exact ih hes y v rest'

/-! ## One word in quotation marks -/

section

variable {q : Char} (hq : isQuote q) {key : List Char} (hkey : IsKeyText key)

include hq hkey

lemma run_ofKey_quotedWord (hu : IsWordText u) (hne : u ≠ []) :
    (ofKey [] key).run (q :: (u ++ [q])) = q :: (u ++ [q]) := by
  have hgap := isWord_of_isQuote hq
  have hreject : (ofKey [] key).accept [q] [q] = false := by
    have hmarked : unprefixed [q] [q] = false := by
      unfold unprefixed
      simp [hq]
    unfold ofKey
    simp only [hmarked, Bool.false_and]
  have hsettled : Settled (ofKey [] key) [] (q :: (u ++ [q])) :=
    .gap hgap ((isSingle_ofKey hkey).word hu hne hgap (fun _ => hreject) (.gap hgap .nil))
  exact hsettled.run_eq (writesPath_ofKey (.inl rfl) hkey).whole fun _ => rfl

lemma run_ofKey_quotedPath {key' : List Char} (hkey' : IsKeyText key') :
    (ofKey [] key).run (q :: (arrow ++ key' ++ [q])) = q :: (arrow ++ key' ++ [q]) := by
  have hgap := isWord_of_isQuote hq
  have hsettled : Settled (ofKey [] key) [] (q :: (arrow ++ key' ++ [q])) :=
    .gap hgap ((isSingle_ofKey hkey).passes hkey' hgap (.gap hgap .nil))
  exact hsettled.run_eq (writesPath_ofKey (.inl rfl) hkey).whole fun _ => rfl

/-- The edit for the bare word of key paths passes over other quoted words. -/
lemma run_ofLone_quotedWord (hu : IsWordText u) (hne : u ≠ [])
    (hapart : ¬SameFolded u ['K', 'E', 'Y']) :
    (ofLone key).run (q :: (u ++ [q])) = q :: (u ++ [q]) := by
  have hgap := isWord_of_isQuote hq
  have hsettled : Settled (ofLone key) [] (q :: (u ++ [q])) :=
    .gap hgap ((isSingle_ofLone key).word hu hne hgap (fun hsame => absurd hsame hapart)
      (.gap hgap .nil))
  exact hsettled.run_eq (writesPath_ofLone hkey).whole fun _ => rfl

lemma run_ofLone_quotedKey (hu : SameFolded u ['K', 'E', 'Y']) :
    (ofLone key).run (q :: (u ++ [q])) = q :: (arrow ++ key ++ [q]) := by
  have hgap := isWord_of_isQuote hq
  have hword := (writesPath_ofLone hkey).whole
  have haccept : (ofLone key).accept [q] [q] :=
    isQuote_induction ⟨rfl, rfl, rfl⟩ hq
  have hgap' : startsWord [q] = false := hgap
  have hlast : substituteFrom (ofLone key).rule 0 (u.reverse ++ [q]) [q] = [q] :=
    (Settled.gap hgap .nil).run_eq hword (fresh_of_not_startsWord hgap')
  have hfirst : (ofLone key).run (q :: (u ++ [q])) =
      q :: substituteFrom (ofLone key).rule 0 [q] (u ++ [q]) :=
    substituteFrom_between hword hgap [] (u ++ [q])
  rw [hfirst, run_found hword hgap' hu hgap', haccept, hlast]
  rfl

end

end WordEdit

namespace KeyBinding

/-- A text ends with AS and white space, where AS does not end a longer row of letters. -/
def EndsWithAs (lead : List Char) : Prop :=
  ∃ front keyword blanks, lead = front ++ (keyword ++ blanks) ∧
    keyword.map Char.toLower = ['a', 's'] ∧
    front.reverse.head?.any isAlphabetic = false ∧
    blanks ≠ [] ∧ ∀ c ∈ blanks, isBlank c = true

lemma EndsWithAs.renames {lead : List Char} (h : EndsWithAs lead) : Text.renames lead.reverse := by
  obtain ⟨front, keyword, blanks, rfl, hkeyword, hfront, -, hblank⟩ := h
  have htext : (front ++ (keyword ++ blanks)).reverse =
      blanks.reverse ++ (keyword.reverse ++ front.reverse) := by
    rw [reverse_append, reverse_append, append_assoc]
  have hsmall : ∀ c ∈ ['a', 's'], c.isLower := all_eq_true.1 (by decide)
  have hne : keyword ≠ [] := by
    rintro rfl
    cases hkeyword
  have hstart : startsWord (keyword.reverse ++ front.reverse) :=
    (isWordText_of_toLower hkeyword hsmall).reverse.startsWord (mt reverse_eq_nil_iff.1 hne) _
  have hdrop : (blanks.reverse ++ (keyword.reverse ++ front.reverse)).dropWhile isBlank =
      keyword.reverse ++ front.reverse := by
    rw [dropWhile_append_of_pos fun c hc => hblank c (mem_reverse.1 hc),
      dropWhile_isBlank_of_startsWord hstart]
  have hletters : ∀ c ∈ keyword.reverse, isAlphabetic c := fun c hc =>
    isAlphabetic_of_toLower (hsmall _ (hkeyword ▸ mem_map_of_mem (mem_reverse.1 hc)))
  have htake := takeWhile_run hletters hfront
  unfold Text.renames
  rw [htext, hdrop, htake, map_reverse, hkeyword]
  rfl

lemma EndsWithAs.last {lead : List Char} (h : EndsWithAs lead) :
    ∃ x g, lead = x ++ [g] ∧ isBlank g := by
  obtain ⟨front, keyword, blanks, rfl, -, -, hne, hblank⟩ := h
  have hsplit := dropLast_concat_getLast hne
  refine ⟨front ++ (keyword ++ blanks.dropLast), blanks.getLast hne, ?_, ?_⟩
  · rw [append_assoc, append_assoc, hsplit]
  · exact hblank _ (getLast_mem hne)

namespace IsArrow

variable {b : KeyBinding} (hb : b.IsArrow) (halias : b.aliasName = "")

include hb halias

lemma keyEdit_plain (key : String) : b.keyEdit key = ofKey [] key.toList := by
  have hlead : b.leadOf = [] := by
    unfold leadOf
    rw [if_pos halias]
  rw [hb.keyEdit_eq, hlead]

lemma isPlainEdit (he : e ∈ b.edits) : ∃ key, WordEdit.IsPlainEdit e key := by
  obtain ⟨-, ⟨lone, hkeys, rfl⟩ | ⟨key, hkey, rfl⟩⟩ := mem_edits_iff.1 he
  · have hlone := (hb.keys lone (hkeys ▸ mem_cons_self)).isKeyText
    rw [hb.loneEdit_eq]
    exact ⟨lone.toList, isSingle_ofLone _, writesPath_ofLone hlone,
      looksNear_ofLone _, keepsTail_ofLone _⟩
  · have hkey := (hb.keys key hkey).isKeyText
    rw [hb.keyEdit_plain halias]
    exact ⟨key.toList, isSingle_ofKey hkey, writesPath_ofKey (.inl rfl) hkey,
      looksNear_ofKey _, (keepsTail_letters (.inl rfl) hkey).1⟩

/-- A new name without quotation marks is kept. -/
lemma apply_named {lead w after : List Char} (hlead : EndsWithAs lead) (hw : IsWordText w)
    (hafter : startsWord after = false) : ∃ rest,
      b.apply (lead ++ (w ++ after)) = b.apply lead ++ (w ++ rest) ∧ rest.head? = after.head? := by
  have hnamed := hlead.renames
  obtain ⟨x, g, rfl, hg⟩ := hlead.last
  rw [apply_eq, apply_eq]
  exact foldl_named (fun e he => hb.isPlainEdit halias he) hg hnamed hw hafter

/-- A name in quotation marks is edited as if it stood alone. -/
lemma apply_quoted (hq : isQuote q) (lead u after : List Char) : ∃ v rest,
      b.apply (q :: (u ++ [q])) = q :: (v ++ [q]) ∧
      b.apply (lead ++ q :: (u ++ q :: after)) = b.apply (lead ++ [q]) ++ (v ++ q :: rest) := by
  obtain ⟨y, v, rest, hy, hv, htext⟩ :=
    foldl_quoted (fun e he => hb.isPlainEdit halias he) hq lead u after
  refine ⟨v, rest, ?_, ?_⟩
  · rw [apply_eq, hv]
  · rw [apply_eq, apply_eq, htext, hy]
    simp

/-- One quoted word is kept, unless there is one key and it is the word of key paths. -/
lemma apply_quotedWord (hq : isQuote q) (hu : IsWordText u) (hne : u ≠ []) :
    b.apply (q :: (u ++ [q])) = q :: (u ++ [q]) ↔
      ¬((∃ lone, b.keys = [lone]) ∧ SameFolded u "KEY".toList) := by
  constructor
  · rintro hkept ⟨⟨lone, hkeys⟩, hkey⟩
    have hlone := (hb.keys lone (hkeys ▸ mem_cons_self)).isKeyText
    have hedits : b.edits = [b.loneEdit lone, b.keyEdit lone] := by
      unfold edits loneEdits
      rw [hb.style, hkeys]
      rfl
    have hpath : b.apply (q :: (u ++ [q])) = q :: (arrow ++ lone.toList ++ [q]) := by
      rw [apply_eq, hedits, foldl_cons, foldl_cons, foldl_nil, hb.loneEdit_eq,
        hb.keyEdit_plain halias, run_ofLone_quotedKey hq hlone hkey,
        run_ofKey_quotedPath hq hlone hlone]
    -- the path is longer than the word that it is written for
    have hlength : (q :: (arrow ++ lone.toList ++ [q])).length =
        (q :: (u ++ [q])).length := by
      rw [← hpath, hkept]
    have hword : u.length = 3 := hkey.length_eq
    have harrow : arrow.length = 5 := rfl
    simp only [length_cons, length_append, hword, harrow] at hlength
    omega
  · intro hother
    have hsame : ∀ e ∈ b.edits, e.run (q :: (u ++ [q])) = q :: (u ++ [q]) := by
      intro e he
      obtain ⟨-, ⟨lone, hkeys, rfl⟩ | ⟨key, hkey, rfl⟩⟩ := mem_edits_iff.1 he
      · have hlone := (hb.keys lone (hkeys ▸ mem_cons_self)).isKeyText
        rw [hb.loneEdit_eq]
        exact run_ofLone_quotedWord hq hlone hu hne
          fun hkey => hother ⟨⟨lone, hkeys⟩, hkey⟩
      · rw [hb.keyEdit_plain halias]
        exact run_ofKey_quotedWord hq (hb.keys key hkey).isKeyText hu hne
    rw [apply_eq]
    exact foldl_fixed hsame

end IsArrow

end KeyBinding

/-! ## Arrows -/

/-- A clause whose keys are written with arrows is styled once. Where the source has no alias, a
name behind AS keeps its place and its text; a name in quotation marks becomes what it becomes
alone, and one word in them is kept unless it is the word of key paths and there is one key. -/
theorem styleKeys_arrow {b : KeyBinding} (hb : b.IsArrow) (clause : String) :
    styleKeys [b] (styleKeys [b] clause) = styleKeys [b] clause ∧ (b.aliasName = "" →
      (∀ lead name after, clause.toList = lead ++ (name ++ after) → KeyBinding.EndsWithAs lead →
        IsWordText name → startsWord after = false →
        ∃ rest, (styleKeys [b] clause).toList = b.apply lead ++ (name ++ rest) ∧
          rest.head? = after.head?) ∧
      ∀ q lead name after, isQuote q = true → clause.toList = lead ++ q :: (name ++ q :: after) →
        ∃ name' rest,
          (styleKeys [b] clause).toList = b.apply (lead ++ [q]) ++ (name' ++ q :: rest) ∧
          b.apply (q :: (name ++ [q])) = q :: (name' ++ [q]) ∧
          (IsWordText name → name ≠ [] →
            (name' = name ↔ ¬((∃ lone, b.keys = [lone]) ∧ SameFolded name "KEY".toList)))) := by
  have hstyle : ∀ s : String, (styleKeys [b] s).toList = b.apply s.toList := fun s =>
    String.toList_ofList
  refine ⟨String.toList_inj.1 ?_, fun halias => ⟨?_, ?_⟩⟩
  · rw [hstyle, hstyle, hb.apply_apply]
  · intro lead name after hclause hlead hname hafter
    rw [hstyle, hclause]
    exact hb.apply_named halias hlead hname hafter
  · intro q lead name after hq hclause
    obtain ⟨name', rest, halone, htext⟩ := hb.apply_quoted halias hq lead name after
    refine ⟨name', rest, ?_, halone, fun hword hne => ?_⟩
    · rw [hstyle, hclause, htext]
    · rw [← hb.apply_quotedWord halias hq hword hne, halone]
      simp

/-- The binding of a table with one key column. -/
def idBinding : KeyBinding where
  aliasName := ""
  keys := ["ID"]
  style := .arrow

/-- Of two new names, the bare one is kept and the quoted one is not. -/
theorem styleKeys_arrow_quotedKey : let clause := "ID AS Id, A AS `Key`"
    styleKeys [idBinding] (styleKeys [idBinding] clause) = styleKeys [idBinding] clause ∧
      (∃ rest, (styleKeys [idBinding] clause).toList =
        idBinding.apply "ID AS ".toList ++ ("Id".toList ++ rest) ∧ rest.head? = some ',') ∧
      ∃ name rest, (styleKeys [idBinding] clause).toList =
        idBinding.apply "ID AS Id, A AS `".toList ++ (name ++ '\x60' :: rest) ∧
          name ≠ "Key".toList := by
  have hb : idBinding.IsArrow := ⟨.inl rfl, rfl, forall_mem_singleton.2 (by decide)⟩
  obtain ⟨htwice, hnames⟩ := styleKeys_arrow hb "ID AS Id, A AS `Key`"
  obtain ⟨hplain, hquoted⟩ := hnames rfl
  have hlead : KeyBinding.EndsWithAs "ID AS ".toList :=
    ⟨"ID ".toList, "AS".toList, [' '], rfl, rfl, rfl, cons_ne_nil _ _,
      all_eq_true.1 (by decide)⟩
  obtain ⟨name, rest, htext, -, hkept⟩ :=
    hquoted '\x60' "ID AS Id, A AS ".toList "Key".toList [] rfl rfl
  have hkey : IsWordText "Key".toList := all_eq_true.1 (by decide)
  have hid : IsWordText "Id".toList := all_eq_true.1 (by decide)
  have hlost : name ≠ "Key".toList := by
    rw [Ne, hkept hkey (by decide), not_not]
    exact ⟨⟨"ID", rfl⟩, by decide⟩
  exact ⟨htwice, hplain _ "Id".toList ", A AS `Key`".toList rfl hlead hid rfl,
    name, rest, htext, hlost⟩

end StreamQuery
