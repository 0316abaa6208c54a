import StreamQuery.Proofs.SettledEdits

/-!
# Styling a clause twice

Where keys are written with arrows, a clause that is styled once more stays as it is
(`KeyBinding.IsArrow.apply_apply`).  Two facts are proved of each edit of a binding: the text it
returns is settled for it (`settled_run`), and a text that is settled for an earlier edit stays so
(`Tolerates`, `settled_rewrites`).  Edits that look for one word are treated together (`IsSingle`).
A reference with an alias is two words and a point, so that a path can stand where the alias or the
key of another reference is looked for; `settled_path` and `settled_rewrites_dotted` show that no
reference arises that way.
-/

namespace StreamQuery

open Text List

variable {y : List Char} {e e' : WordEdit}

namespace WordEdit

variable {key lead key' s : List Char}

/-! ## The edits of keys -/

/-- What agrees with a key up to case is a word. -/
lemma IsKeyText.word_of_sameFolded {m : List Char} (hkey : IsKeyText key) (hm : SameFolded m key) :
    IsWordText m ∧ m ≠ [] := by
  refine ⟨hm.isWordText hkey.namePart, ?_⟩
  rintro rfl
  exact hkey.ne_nil (eq_nil_of_length_eq_zero hm.length_eq.symm)

lemma writesPath_ofKey (hlead : IsLead lead) (hkey : IsKeyText key) :
    WritesPath (ofKey lead key) key := by
  refine ⟨⟨?_, ?_⟩, rfl, hkey⟩
  · rcases hlead with rfl | ⟨a, rfl | rfl, rfl⟩
    · obtain ⟨c, key, rfl⟩ := exists_cons_of_ne_nil hkey.ne_nil
      exact hkey.namePart c mem_cons_self
    · rfl
    · rfl
  · obtain ⟨c, rest, hreverse⟩ :=
      exists_cons_of_ne_nil (reverse_ne_nil_iff.2 hkey.ne_nil)
    have hc : c ∈ key := mem_reverse.1 (hreverse ▸ mem_cons_self)
    unfold ofKey
    rw [reverse_append, hreverse]
    exact hkey.namePart c hc

lemma writesPath_ofLone (hkey : IsKeyText key) : WritesPath (ofLone key) key :=
  ⟨⟨rfl, rfl⟩, rfl, hkey⟩

/-- What an edit does not accept in a text, it does not after another edit. -/
def Tolerates (e e' : WordEdit) : Prop :=
  ∀ before current s t, Behind e' before current → Rewrites e' s t → startsWord s = false →
    e.accept before s = false → e.accept current t = false

lemma tolerates_ofLone (he' : WritesPath e' key') (hname : KeepsTail e' ['s', 'a'])
    (key : List Char) : Tolerates (ofLone key) e' := by
  intro before current s t hbehind hahead _ hreject
  have harrow : isPrefixOf ['-', '>'] s → isPrefixOf ['-', '>'] t := by
    intro hs
    obtain ⟨rest, rfl⟩ := isPrefixOf_iff_prefix.1 hs
    obtain ⟨t₁, rfl, h₁⟩ := hahead.gap_inv he' (by decide)
    obtain ⟨t₂, rfl, -⟩ := h₁.gap_inv he' (by decide)
    rfl
  unfold ofLone at hreject ⊢
  simp only [Bool.and_eq_false_iff, Bool.not_eq_false'] at hreject ⊢
  exact hreject.imp harrow (hbehind.renames he' hname)

/-- The edit for a key looks at key paths, quotation marks and AS. -/
lemma tolerates_ofKey (he' : WritesPath e' key') (hname : KeepsTail e' ['s', 'a'])
    (hpath : KeepsTail e' ['y', 'e', 'k']) (lead key : List Char) :
    Tolerates (ofKey lead key) e' := by
  intro before current s t hbehind hahead hs hreject
  unfold ofKey at hreject ⊢
  simp only [Bool.and_eq_false_iff, Bool.or_eq_false_iff, Bool.not_eq_false'] at hreject ⊢
  exact hreject.imp (hbehind.unprefixed he' hpath (hahead.head?_eq he' hs))
    (.imp_right (hbehind.renames he' hname))

/-! ## Going over a settled text -/

/-- A character between words is passed over. -/
lemma Settled.gap_inv (hword : WholeWord e.word) {before : List Char} {c : Char}
    (h : Settled e before (c :: s)) (hc : isWord c = false) : Settled e (c :: before) s := by
  have hstart : startsWord (c :: s) = false := hc
  generalize htext : c :: s = text at h hstart
  cases h with
  | nil => cases htext
  | gap _ h =>
    cases htext
    exact h
  | word hw hne =>
    rw [hw.startsWord hne] at hstart
    cases hstart
  | pass href =>
    rw [href.startsWord hword.first] at hstart
    cases hstart

/-- A word has no reference at it, or one that is not accepted. -/
lemma Settled.word_inv {before w : List Char} (h : Settled e before (w ++ s)) (hw : IsWordText w)
    (hne : w ≠ []) (hs : startsWord s = false) :
    (∀ after, ¬Reads e.word (w ++ s) after) ∧ Settled e (w.reverse ++ before) s ∨
      ∃ ref s', w ++ s = ref ++ s' ∧ SameFolded ref e.word ∧ startsWord s' = false ∧
        e.accept before s' = false ∧ Settled e (ref.reverse ++ before) s' := by
  have hstart := hw.startsWord hne s
  generalize htext : w ++ s = text at h hstart
  cases h with
  | nil => cases hstart
  | gap hc => exact absurd hstart (Bool.eq_false_iff.1 hc)
  | word hw' _ hs' hnone h =>
    obtain ⟨rfl, rfl⟩ := word_unique htext hw hw' hs hs'
    exact .inl ⟨hnone, h⟩
  | pass href hs' hreject h => exact .inr ⟨_, _, rfl, href, hs', hreject, h⟩

/-- An edit settles a text, if it finds no new words in the edited text and passes over its own
paths. -/
theorem settled_run {key : List Char} (hpath : WritesPath e key)
    (htolerates : Tolerates e e)
    (hreads : ∀ w s t after, IsWordText w → w ≠ [] → startsWord s = false → Rewrites e s t →
      Reads e.word (w ++ t) after → ∃ after', Reads e.word (w ++ s) after')
    (hpasses : ∀ before s, startsWord s = false → Settled e ((arrow ++ key).reverse ++ before) s →
      Settled e before (arrow ++ key ++ s)) (s : List Char) : Settled e [] (e.run s) := by
  refine scan_induction (motive := fun before s => ∀ current, Behind e before current →
    Settled e current (substituteFrom e.rule 0 before s)) hpath.whole ?_ ?_ ?_ ?_
    (fun _ => rfl : Fresh [] s) [] .nil
  · intro before current _
    unfold rule
    rw [substituteFrom_nil hpath.whole]
    exact .nil
  · intro before c s hc ih current hbehind
    unfold rule at ih ⊢
    rw [substituteFrom_between hpath.whole hc]
    exact .gap hc (ih _ (.gap hc hbehind))
  · intro before w s hbefore hw hne hs hnone ih current hbehind
    have hahead : Rewrites e s (substituteFrom e.rule 0 (w.reverse ++ before) s) :=
      rewrites_run hpath.whole (fresh_of_not_startsWord hs)
    rw [run_word hpath.whole hw hnone]
    refine .word hw hne ((hahead.startsWord_eq hpath).trans hs) (fun after hfound => ?_)
      (ih _ (.word hw hne hbefore hbehind))
    obtain ⟨after', hfound'⟩ := hreads _ _ _ _ hw hne hs hahead hfound
    exact hnone after' hfound'
  · intro before ref s hbefore href hs ih current hbehind
    have hahead : Rewrites e s (substituteFrom e.rule 0 (ref.reverse ++ before) s) :=
      rewrites_run hpath.whole (fresh_of_not_startsWord hs)
    have hnext := (hahead.startsWord_eq hpath).trans hs
    rw [run_found hpath.whole hbefore href hs]
    split
    · have hrest := ih _ (.path href hbefore hbehind)
      rw [hpath.written] at hrest ⊢
      exact hpasses current _ hnext hrest
    · next hreject =>
      have hkept := htolerates _ _ _ _ hbehind hahead hs (Bool.eq_false_iff.2 hreject)
      exact .pass href hnext hkept (ih _ (hbehind.keep fun _ => hbefore))

/-! ## Edits of single words -/

/-- An edit looks for one word, in capitals, and passes over key paths. -/
structure IsSingle (e : WordEdit) : Prop where
  ne_nil : e.word ≠ []
  capital : ∀ c ∈ e.word, isCapital c = true
  beforeArrow : e.word = ['K', 'E', 'Y'] →
    ∀ before rest, e.accept before ('-' :: '>' :: rest) = false
  behindArrow : e.word ≠ ['K', 'E', 'Y'] →
    ∀ before after, e.accept (arrow.reverse ++ before) after = false

section

variable {e : WordEdit} (he : IsSingle e) {before s w : List Char}

include he

lemma IsSingle.isWordText {m : List Char} (hm : SameFolded m e.word) : IsWordText m :=
  hm.isWordText fun c hc => isNamePart_of_isCapital (he.capital c hc)

/-- A word is read exactly if it is the word of the edit. -/
lemma IsSingle.reads_iff (hw : IsWordText w) (hs : startsWord s = false) :
    (∃ after, Reads e.word (w ++ s) after) ↔ SameFolded w e.word := by
  constructor
  · rintro ⟨after, hafter, m, htext, hm⟩
    obtain ⟨rfl, -⟩ := word_unique htext hw (he.isWordText hm) hs hafter
    exact hm
  · intro hsame
    exact ⟨s, hs, w, rfl, hsame⟩

/-- A word is passed over. -/
lemma IsSingle.word_inv (h : Settled e before (w ++ s)) (hw : IsWordText w) (hne : w ≠ [])
    (hs : startsWord s = false) : Settled e (w.reverse ++ before) s ∧
      (SameFolded w e.word → e.accept before s = false) := by
  rcases h.word_inv hw hne hs with ⟨hnone, h⟩ | ⟨ref, s', htext, href, hs', hreject, h⟩
  · refine ⟨h, fun hsame => ?_⟩
    obtain ⟨after, hreads⟩ := (he.reads_iff hw hs).2 hsame
    exact absurd hreads (hnone after)
  · obtain ⟨rfl, rfl⟩ := word_unique htext hw (he.isWordText href) hs hs'
    exact ⟨h, fun _ => hreject⟩

/-- A word is passed over if it is not accepted. -/
lemma IsSingle.word (hw : IsWordText w) (hne : w ≠ []) (hs : startsWord s = false)
    (hreject : SameFolded w e.word → e.accept before s = false)
    (h : Settled e (w.reverse ++ before) s) : Settled e before (w ++ s) := by
  by_cases hsame : SameFolded w e.word
  · exact .pass hsame hs (hreject hsame) h
  · refine .word hw hne hs (fun after hreads => hsame ?_) h
    exact (he.reads_iff hw hs).1 ⟨after, hreads⟩

/-- Where no word goes on, the rest of a settled text is settled. -/
lemma IsSingle.skip (hword : WholeWord e.word) {m : List Char} (h : Settled e before (m ++ s))
    (hs : startsWord s = false) : Settled e (m.reverse ++ before) s := by
  induction m using text_induction generalizing before with
  | nil => exact h
  | gap c m hc ih =>
    have hrest := ih (h.gap_inv hword hc)
    rwa [reverse_cons, append_assoc]
  | word w m hw hne hm ih =>
    rw [append_assoc] at h
    have hrest := ih (he.word_inv h hw hne (startsWord_append hm hs)).1
    rwa [reverse_append, append_assoc]

/-- A key path is passed over. -/
lemma IsSingle.passes {key : List Char} (hkey : IsKeyText key) (hs : startsWord s = false)
    (h : Settled e ((arrow ++ key).reverse ++ before) s) :
    Settled e before (arrow ++ key ++ s) := by
  have hcapital : ∀ c ∈ ['K', 'E', 'Y'], isCapital c := all_eq_true.1 (by decide)
  have hname : Settled e (arrow.reverse ++ before) (key ++ s) := by
    refine he.word hkey.isWordText hkey.ne_nil hs (fun hsame => ?_) ?_
    · refine he.behindArrow (fun hword => ?_) before s
      rw [hword] at hsame
      exact hkey.not_sameFolded_key hsame
    · rwa [reverse_append, append_assoc] at h
  have hlead : Settled e (['K', 'E', 'Y'].reverse ++ before) ('-' :: '>' :: (key ++ s)) :=
    .gap (by decide) (.gap (by decide) hname)
  have htext : arrow ++ key ++ s = ['K', 'E', 'Y'] ++ ('-' :: '>' :: (key ++ s)) := rfl
  rw [htext]
  refine he.word isWordText_key (cons_ne_nil _ _) rfl (fun hsame => ?_) hlead
  exact he.beforeArrow (hsame.eq_of_capital hcapital he.capital).symm before (key ++ s)

/-- A word is at no reference in the edited text if it is at none in the text. -/
lemma IsSingle.reads_mono {key : List Char} (hpath : WritesPath e' key) (hw : IsWordText w)
    (hs : startsWord s = false) {t after : List Char} (hahead : Rewrites e' s t)
    (h : Reads e.word (w ++ t) after) : ∃ after', Reads e.word (w ++ s) after' := by
  have ht : startsWord t = false := (hahead.startsWord_eq hpath).trans hs
  exact (he.reads_iff hw hs).2 ((he.reads_iff hw ht).1 ⟨after, h⟩)

/-- A text settled for a one-word edit is so after another edit. -/
lemma IsSingle.settled_rewrites (hword : WholeWord e.word) {key' : List Char}
    (hpath : WritesPath e' key') (htolerates : Tolerates e e') {current t : List Char}
    (h : Settled e before s) (hahead : Rewrites e' s t) (hbehind : Behind e' before current)
    (hfresh : Fresh before s) : Settled e current t := by
  induction hahead generalizing before current with
  | nil => exact .nil
  | gap hc _ ih => exact .gap hc (ih (h.gap_inv hword hc) (.gap hc hbehind) fun _ => hc)
  | word hw hne hs hrest ih =>
    have hbefore := hfresh (hw.startsWord hne _)
    obtain ⟨hsettled, hreject⟩ := he.word_inv h hw hne hs
    refine he.word hw hne ((hrest.startsWord_eq hpath).trans hs) (fun hsame => ?_)
      (ih hsettled (.word hw hne hbefore hbehind) (fresh_of_not_startsWord hs))
    exact htolerates _ _ _ _ hbehind hrest hs (hreject hsame)
  | path href hs hrest ih =>
    have hbefore := hfresh (href.startsWord hpath.whole.first _)
    have hsettled := ih (he.skip hword h hs) (.path href hbefore hbehind)
      (fresh_of_not_startsWord hs)
    rw [hpath.written] at hsettled ⊢
    exact he.passes hpath.isKey ((hrest.startsWord_eq hpath).trans hs) hsettled

end

/-! ## Edits of references with an alias -/

section

variable {a : Char} (ha : a = 'o' ∨ a = 'i') {key : List Char} (hkey : IsKeyText key)
  {before s w : List Char}

variable {after : List Char}

/-- A reference with an alias is two words and a point. -/
lemma dotted_text {ref : List Char} (href : SameFolded ref (a :: '.' :: key)) :
    ∃ x y, ref = x :: '.' :: y ∧ SameFolded [x] [a] ∧ SameFolded y key := by
  obtain _ | ⟨x, _ | ⟨dot, y⟩⟩ := ref
  · cases href.length_eq
  · cases href.length_eq
  · obtain ⟨hfirst, hlater⟩ := cons.inj href
    obtain ⟨hdot, hy⟩ := cons.inj hlater
    obtain rfl := eq_dot_of_fold hdot
    exact ⟨x, y, rfl, congrArg (· :: []) hfirst, hy⟩

lemma isWordText_alias (ha : a = 'o' ∨ a = 'i') (hw : SameFolded w [a]) : IsWordText w := by
  refine hw.isWordText ?_
  rcases ha with rfl | rfl
  · exact all_eq_true.1 (by decide)
  · exact all_eq_true.1 (by decide)

/-- A reference at a word has the word for its alias. -/
lemma reference_dotted {ref : List Char} (hw : IsWordText w) (hne : w ≠ [])
    (htext : w ++ s = ref ++ after) (href : SameFolded ref (a :: '.' :: key)) :
    SameFolded w [a] ∧ ∃ y, s = '.' :: (y ++ after) ∧ SameFolded y key ∧ ref = w ++ '.' :: y := by
  obtain ⟨x, y, rfl, hx, hy⟩ := dotted_text href
  obtain _ | ⟨c, _ | ⟨d, w⟩⟩ := w
  · exact absurd rfl hne
  · obtain ⟨rfl, rfl⟩ := cons.inj htext
    exact ⟨hx, y, rfl, hy, rfl⟩
  · -- a longer word would hold the full stop
    obtain ⟨rfl, -⟩ := cons.inj (cons.inj htext).2
    exact absurd (hw '.' (by simp)) (by decide)

/-- Where a reference is found, an alias has a key behind a full stop. -/
lemma reads_dotted (hw : IsWordText w) (hne : w ≠ []) (h : Reads (a :: '.' :: key) (w ++ s) after) :
    SameFolded w [a] ∧ ∃ y, s = '.' :: (y ++ after) ∧ SameFolded y key := by
  obtain ⟨-, ref, htext, href⟩ := h
  obtain ⟨halias, y, hs, hy, -⟩ := reference_dotted hw hne htext href
  exact ⟨halias, y, hs, hy⟩

lemma sameFolded_dotted (hw : SameFolded w [a]) (hy : SameFolded y key) :
    SameFolded (w ++ '.' :: y) (a :: '.' :: key) := by
  unfold SameFolded at hw hy ⊢
  rw [map_append, hw]
  exact congrArg (fun u => fold a :: fold '.' :: u) hy

/-- A word is at no reference in the edited text if it is at none in the text. -/
lemma reads_dotted_mono {key' : List Char} (hpath : WritesPath e' key') (hkey : IsKeyText key)
    (hw : IsWordText w) (hne : w ≠ []) {t : List Char} (hahead : Rewrites e' s t)
    (h : Reads (a :: '.' :: key) (w ++ t) after) :
    ∃ after', Reads (a :: '.' :: key) (w ++ s) after' := by
  obtain ⟨halias, y, rfl, hy⟩ := reads_dotted hw hne h
  obtain ⟨hyword, hyne⟩ := hkey.word_of_sameFolded hy
  obtain ⟨s₁, rfl, h₁⟩ := hahead.of_gap hpath (by decide)
  obtain ⟨s₂, rfl, hs₂, -⟩ := h₁.of_word hpath hyword hyne
    (fun hsame => hkey.not_sameFolded_key (hy.symm.trans hsame)) h.1
  exact ⟨s₂, hs₂, w ++ '.' :: y, by simp, sameFolded_dotted halias hy⟩

lemma settled_arrow (h : Settled (ofKey [a, '.'] key) (arrow.reverse ++ before) s) :
    Settled (ofKey [a, '.'] key) before (arrow ++ s) := by
  have htext : arrow ++ s = ['K', 'E', 'Y'] ++ ('-' :: '>' :: s) := rfl
  have hlead : Settled (ofKey [a, '.'] key) (['K', 'E', 'Y'].reverse ++ before) ('-' :: '>' :: s) :=
    .gap (by decide) (.gap (by decide) h)
  rw [htext]
  refine .word isWordText_key (cons_ne_nil _ _) rfl (fun after hreads => ?_) hlead
  cases (reads_dotted isWordText_key (cons_ne_nil _ _) hreads).1.length_eq

/-- A key is not accepted right behind an arrow. -/
lemma accept_behindArrow (lead key before after : List Char) :
    (ofKey lead key).accept (arrow.reverse ++ before) after = false := rfl

/-- A key that is an alias is not accepted behind another one only if a quotation mark follows. -/
lemma isQuote_of_reject (ha : a = 'o' ∨ a = 'i') (hkey : IsKeyText key)
    (halias : SameFolded key [a])
    (hreject :
      (ofKey [a, '.'] key).accept ('.' :: ((arrow ++ key).reverse ++ before)) after = false) :
    after.head?.any isQuote := by
  have hletter : key = ['O'] ∨ key = ['I'] := by
    rcases ha with rfl | rfl
    · exact .inl (SameFolded.eq_of_capital (halias.trans rfl) hkey.capital
        (all_eq_true.1 (by decide)))
    · exact .inr (SameFolded.eq_of_capital (halias.trans rfl) hkey.capital
        (all_eq_true.1 (by decide)))
  have hself : unprefixed ('.' :: ((arrow ++ key).reverse ++ before)) after =
      !(after.head?.any isQuote) := by
    rcases hletter with rfl | rfl
    · rfl
    · rfl
  unfold ofKey at hreject
  dsimp only at hreject
  rw [hself] at hreject
  simpa using hreject

/-- Behind a reference after an arrow, the rest is settled too. -/
lemma settled_resume (ha : a = 'o' ∨ a = 'i') (hkey : IsKeyText key) (halias : SameFolded key [a])
    (hy : SameFolded y key) (hafter : startsWord after = false)
    (h : Settled (ofKey [a, '.'] key) ((arrow ++ key).reverse ++ before) ('.' :: (y ++ after))) :
    Settled (ofKey [a, '.'] key) (y.reverse ++ '.' :: ((arrow ++ key).reverse ++ before))
      after := by
  have hpath := writesPath_ofKey (.inr ⟨a, ha, rfl⟩) hkey
  obtain ⟨hyword, hyne⟩ := hkey.word_of_sameFolded hy
  rcases (h.gap_inv hpath.whole (by decide)).word_inv hyword hyne hafter with
    ⟨-, hrest⟩ | ⟨ref, s', htext, href, hs', hreject, hrest⟩
  · exact hrest
  · -- only a quotation mark can keep the second reference from being accepted
    have hquote := isQuote_of_reject ha hkey halias hreject
    obtain ⟨-, z, rfl, hz, rfl⟩ := reference_dotted hyword hyne htext href
    obtain ⟨hzword, hzne⟩ := hkey.word_of_sameFolded hz
    refine .gap (by decide) (.word hzword hzne hs' (fun after hreads => ?_) ?_)
    · obtain ⟨-, x, rfl, -⟩ := reads_dotted hzword hzne hreads
      exact absurd hquote Bool.false_ne_true
    · simpa using hrest

/-- A key path is passed over. -/
lemma settled_path (ha : a = 'o' ∨ a = 'i') (hkey : IsKeyText key) (hs : startsWord s = false)
    (h : Settled (ofKey [a, '.'] key) ((arrow ++ key).reverse ++ before) s) :
    Settled (ofKey [a, '.'] key) before (arrow ++ key ++ s) := by
  rw [append_assoc]
  refine settled_arrow ?_
  by_cases hreads : ∃ after, Reads (a :: '.' :: key) (key ++ s) after
  · obtain ⟨after, hreads⟩ := hreads
    obtain ⟨halias, y, rfl, hy⟩ := reads_dotted hkey.isWordText hkey.ne_nil hreads
    have hrest := settled_resume ha hkey halias hy hreads.1 h
    have htext : key ++ '.' :: (y ++ after) = (key ++ '.' :: y) ++ after := by simp
    rw [htext]
    refine .pass (sameFolded_dotted halias hy) hreads.1 (accept_behindArrow _ _ _ _) ?_
    simpa using hrest
  · refine .word hkey.isWordText hkey.ne_nil hs (not_exists.1 hreads) ?_
    simpa using h

end

/-! ## Two edits of references with an alias -/

section

variable {a : Char} (ha : a = 'o' ∨ a = 'i') {key key' : List Char} (hkey : IsKeyText key)
  (hkey' : IsKeyText key') (hkeys : key ≠ key') {before current s t : List Char}

/-- Texts below a length that are settled for one key are so after the edit for another. -/
def KeptBelow (a : Char) (key key' : List Char) (n : Nat) : Prop :=
  ∀ before current s t, s.length < n → Settled (ofKey [a, '.'] key) before s →
    Rewrites (ofKey [a, '.'] key') s t → Behind (ofKey [a, '.'] key') before current →
    Fresh before s → Settled (ofKey [a, '.'] key) current t

include ha hkey hkey' hkeys

omit hkey' hkeys in
lemma writesPath_alias : WritesPath (ofKey [a, '.'] key) key :=
  writesPath_ofKey (.inr ⟨a, ha, rfl⟩) hkey

/-- A path has been written at a word with no reference to the first key. -/
lemma settled_path_at_word {n : Nat} (ih : KeptBelow a key key' n) (hn : s.length < n)
    {w : List Char} (hw : SameFolded w [a]) (hy : SameFolded y key') (hs : startsWord s = false)
    (hbefore : startsWord before = false)
    (h : Settled (ofKey [a, '.'] key) (w.reverse ++ before) ('.' :: (y ++ s)))
    (hahead : Rewrites (ofKey [a, '.'] key') s t)
    (hbehind : Behind (ofKey [a, '.'] key') before current) :
    Settled (ofKey [a, '.'] key) current (arrow ++ key' ++ t) := by
  have hpath := writesPath_alias ha hkey
  have hpath' := writesPath_alias ha hkey'
  have ht : startsWord t = false := (hahead.startsWord_eq hpath').trans hs
  have hwritten : Behind (ofKey [a, '.'] key') (y.reverse ++ '.' :: (w.reverse ++ before))
      ((arrow ++ key').reverse ++ current) := by
    have hbehind' := hbehind.path (sameFolded_dotted hw hy) hbefore
    simpa [ofKey] using hbehind'
  obtain ⟨hyword, hyne⟩ := hkey'.word_of_sameFolded hy
  rw [append_assoc]
  refine settled_arrow ?_
  rcases (h.gap_inv hpath.whole (by decide)).word_inv hyword hyne hs with
    ⟨hnone, hrest⟩ | ⟨ref, s', htext, href, hs', -, hrest⟩
  · have hsettled := ih _ _ _ _ hn hrest hahead hwritten (fresh_of_not_startsWord hs)
    refine .word hkey'.isWordText hkey'.ne_nil ht (fun after hreads => ?_) (by simpa using hsettled)
    -- the key is the word before, up to case
    obtain ⟨halias, z, rfl, hz⟩ := reads_dotted hkey'.isWordText hkey'.ne_nil hreads
    have hreads' : Reads (a :: '.' :: key) (y ++ '.' :: (z ++ after)) after :=
      ⟨hreads.1, y ++ '.' :: z, by simp, sameFolded_dotted (hy.trans halias) hz⟩
    obtain ⟨after', hfound⟩ := reads_dotted_mono hpath' hkey hyword hyne hahead hreads'
    exact hnone after' hfound
  · obtain ⟨halias, z, rfl, hz, rfl⟩ := reference_dotted hyword hyne htext href
    obtain ⟨hzword, hzne⟩ := hkey.word_of_sameFolded hz
    obtain ⟨t₁, rfl, h₁⟩ := hahead.gap_inv hpath' (by decide)
    rcases h₁.word_inv hzword hzne hs' with ⟨t₂, rfl, h₂⟩ | ⟨ref', s'', t₂, htext', href', -, -, -⟩
    · have hlength : s'.length < n := by
        simp only [length_cons, length_append] at hn
        omega
      have hkept : Behind (ofKey [a, '.'] key')
          ((y ++ '.' :: z).reverse ++ '.' :: (w.reverse ++ before))
          (z.reverse ++ '.' :: ((arrow ++ key').reverse ++ current)) := by
        have hbehind' := (hwritten.gap (by decide : isWord '.' = false)).word hzword hzne rfl
        simpa using hbehind'
      have hsettled := ih _ _ _ _ hlength hrest h₂ hkept (fresh_of_not_startsWord hs')
      have htext' : key' ++ '.' :: (z ++ t₂) = (key' ++ '.' :: z) ++ t₂ := by simp
      rw [htext']
      refine .pass (sameFolded_dotted (hy.symm.trans halias) hz) ?_ (accept_behindArrow _ _ _ _) ?_
      · exact (h₂.startsWord_eq hpath').trans hs'
      · simpa using hsettled
    · -- both keys would be the alias
      have halias' := (reference_dotted hzword hzne htext' href').1
      have hsame : SameFolded key key' :=
        hz.symm.trans (halias'.trans (halias.symm.trans hy))
      exact absurd (hkey.eq_of_sameFolded hkey' hsame) hkeys

/-- A path has been written in a reference to the first key. -/
lemma settled_path_in_reference {n : Nat} (ih : KeptBelow a key key' n) (hn : s.length < n)
    {x : Char} {z : List Char} (hx : SameFolded [x] [a]) (hy : SameFolded y key)
    (halias : SameFolded y [a]) (hz : SameFolded z key') (hs : startsWord s = false)
    (h : Settled (ofKey [a, '.'] key) (y.reverse ++ '.' :: x :: before) ('.' :: (z ++ s)))
    (hahead : Rewrites (ofKey [a, '.'] key') s t)
    (hbehind : Behind (ofKey [a, '.'] key') ('.' :: x :: before) ('.' :: x :: current)) :
    Settled (ofKey [a, '.'] key) current (x :: '.' :: (arrow ++ key' ++ t)) := by
  have hpath := writesPath_alias ha hkey
  have hpath' := writesPath_alias ha hkey'
  have ht : startsWord t = false := (hahead.startsWord_eq hpath').trans hs
  have hapart : ¬SameFolded key' [a] := fun hsame =>
    hkeys (hkey.eq_of_sameFolded hkey' (hy.symm.trans (halias.trans hsame.symm)))
  obtain ⟨hzword, hzne⟩ := hkey'.word_of_sameFolded hz
  have hxword := isWordText_alias ha hx
  have hrest : Settled (ofKey [a, '.'] key) (z.reverse ++ '.' :: (y.reverse ++ '.' :: x :: before))
      s := by
    rcases (h.gap_inv hpath.whole (by decide)).word_inv hzword hzne hs with
      ⟨-, hrest⟩ | ⟨ref, s', htext, href, -⟩
    · exact hrest
    · have hsame := (reference_dotted hzword hzne htext href).1
      exact absurd (hz.symm.trans hsame) hapart
  have hwritten : Behind (ofKey [a, '.'] key')
      (z.reverse ++ '.' :: (y.reverse ++ '.' :: x :: before))
      ((arrow ++ key').reverse ++ '.' :: x :: current) := by
    have hbehind' := hbehind.path (sameFolded_dotted halias hz) rfl
    simpa [ofKey] using hbehind'
  have hsettled := ih _ _ _ _ hn hrest hahead hwritten (fresh_of_not_startsWord hs)
  have hname : Settled (ofKey [a, '.'] key) (arrow.reverse ++ '.' :: x :: current) (key' ++ t) := by
    refine .word hkey'.isWordText hkey'.ne_nil ht (fun after hreads => ?_) (by simpa using hsettled)
    exact hapart (reads_dotted hkey'.isWordText hkey'.ne_nil hreads).1
  have hdot : Settled (ofKey [a, '.'] key) ([x].reverse ++ current)
      ('.' :: (arrow ++ key' ++ t)) := by
    rw [append_assoc]
    exact .gap (by decide) (settled_arrow hname)
  refine .word (w := [x]) hxword (cons_ne_nil _ _) rfl (fun after hreads => ?_) hdot
  -- the word of key paths is no key
  obtain ⟨-, y', htext, hy'⟩ := reads_dotted hxword (cons_ne_nil _ _) hreads
  have harrow : ['K', 'E', 'Y'] ++ ('-' :: '>' :: (key' ++ t)) = y' ++ after :=
    (cons.inj htext).2
  obtain ⟨rfl, -⟩ := word_unique harrow isWordText_key (hkey.word_of_sameFolded hy').1 rfl hreads.1
  exact hkey.not_sameFolded_key hy'.symm

/-- A text settled for one key is so after the edit for another. -/
theorem settled_rewrites_dotted (h : Settled (ofKey [a, '.'] key) before s)
    (hahead : Rewrites (ofKey [a, '.'] key') s t)
    (hbehind : Behind (ofKey [a, '.'] key') before current) (hfresh : Fresh before s) :
    Settled (ofKey [a, '.'] key) current t := by
  have hlead : IsLead [a, '.'] := .inr ⟨a, ha, rfl⟩
  have hpath' := writesPath_alias ha hkey'
  have htolerates : Tolerates (ofKey [a, '.'] key) (ofKey [a, '.'] key') :=
    tolerates_ofKey hpath' (keepsTail_ofKey hlead hkey' (all_eq_true.1 (by decide)))
      (keepsTail_ofKey hlead hkey' (all_eq_true.1 (by decide))) _ _
  -- a reference is passed over at once, so the induction is on the length of the text
  induction hlen : s.length using Nat.strongRecOn generalizing before s t current with
  | _ n ih =>
    subst hlen
    have hbelow : KeptBelow a key key' s.length := fun before current s' t hlength h hahead hbehind
      hfresh => ih _ hlength h hahead hbehind hfresh rfl
    cases h with
    | nil =>
      rw [hahead.of_nil hpath']
      exact .nil
    | gap hc h =>
      obtain ⟨t', rfl, hrest⟩ := hahead.gap_inv hpath' hc
      exact .gap hc (hbelow _ _ _ _ (Nat.lt_succ_self _) h hrest (.gap hc hbehind) fun _ => hc)
    | @word _ s w hw hne hs hnone h =>
      have hbefore := hfresh (hw.startsWord hne s)
      have hlength := length_pos_iff.2 hne
      rcases hahead.word_inv hw hne hs with
        ⟨t', rfl, hrest⟩ | ⟨ref, s', t', htext, href, hs', rfl, hrest⟩
      · refine .word hw hne ((hrest.startsWord_eq hpath').trans hs) (fun after hreads => ?_) ?_
        · obtain ⟨after', hfound⟩ := reads_dotted_mono hpath' hkey hw hne hrest hreads
          exact hnone after' hfound
        · refine hbelow _ _ _ _ ?_ h hrest (.word hw hne hbefore hbehind)
            (fresh_of_not_startsWord hs)
          rw [length_append]
          omega
      · obtain ⟨halias, y, rfl, hy, rfl⟩ := reference_dotted hw hne htext href
        refine settled_path_at_word ha hkey hkey' hkeys hbelow ?_ halias hy hs' hbefore h hrest
          hbehind
        simp only [length_append, length_cons]
        omega
    | @pass _ s ref href hs hreject h =>
      have hbefore := hfresh (href.startsWord (writesPath_alias ha hkey).whole.first s)
      obtain ⟨x, y, rfl, hx, hy⟩ := dotted_text href
      obtain ⟨hyword, hyne⟩ := hkey.word_of_sameFolded hy
      have hxword := isWordText_alias ha hx
      have hlength : s.length < (x :: '.' :: y ++ s).length := by
        simp only [length_append, length_cons]
        omega
      have hahead' : Rewrites (ofKey [a, '.'] key') ([x] ++ '.' :: (y ++ s)) t := hahead
      rcases hahead'.word_inv hxword (cons_ne_nil _ _) rfl with
        ⟨t₁, rfl, h₁⟩ | ⟨ref', s', t', htext, href', hs', -, -⟩
      · obtain ⟨t₂, rfl, h₂⟩ := h₁.gap_inv hpath' (by decide)
        rcases h₂.word_inv hyword hyne hs with
          ⟨t₃, rfl, h₃⟩ | ⟨ref', s', t₃, htext, href', hs', rfl, h₃⟩
        · have hkept := hbelow _ _ _ _ hlength h h₃ (hbehind.keep fun _ => hbefore)
            (fresh_of_not_startsWord hs)
          have htext : [x] ++ '.' :: (y ++ t₃) = x :: '.' :: y ++ t₃ := rfl
          rw [htext]
          exact .pass href ((h₃.startsWord_eq hpath').trans hs)
            (htolerates _ _ _ _ hbehind h₃ hs hreject) hkept
        · obtain ⟨halias, z, rfl, hz, rfl⟩ := reference_dotted hyword hyne htext href'
          have hdot : isWord '.' = false := by decide
          refine settled_path_in_reference ha hkey hkey' hkeys hbelow ?_ hx hy halias hz hs'
            (by simpa using h) h₃ (.gap hdot (hbehind.word hxword (cons_ne_nil _ _) hbefore))
          simp only [length_append, length_cons]
          omega
      · -- the reference would be to both keys
        obtain ⟨-, y', htail, hy', -⟩ := reference_dotted hxword (cons_ne_nil _ _) htext href'
        obtain ⟨hyword', -⟩ := hkey'.word_of_sameFolded hy'
        obtain ⟨rfl, -⟩ := word_unique (cons.inj htail).2 hyword hyword' hs hs'
        exact absurd (hkey.eq_of_sameFolded hkey' (hy.symm.trans hy')) hkeys

end

/-! ## The edits of a binding -/

lemma keepsTail_letters (hlead : IsLead lead) (hkey : IsKeyText key) :
    KeepsTail (ofKey lead key) ['s', 'a'] ∧ KeepsTail (ofKey lead key) ['y', 'e', 'k'] :=
  ⟨keepsTail_ofKey hlead hkey (all_eq_true.1 (by decide)),
    keepsTail_ofKey hlead hkey (all_eq_true.1 (by decide))⟩

lemma isSingle_ofLone (key : List Char) : IsSingle (ofLone key) where
  ne_nil := cons_ne_nil _ _
  capital := (all_eq_true.1 (by decide) : ∀ c ∈ ['K', 'E', 'Y'], isCapital c)
  beforeArrow _ _ _ := rfl
  behindArrow h := absurd rfl h

lemma isSingle_ofKey (hkey : IsKeyText key) : IsSingle (ofKey [] key) where
  ne_nil := hkey.ne_nil
  capital := hkey.capital
  beforeArrow h := absurd h hkey.ne_key
  behindArrow _ before after := accept_behindArrow [] key before after

/-- The edit of the bare word settles its text. -/
lemma settled_run_ofLone (hkey : IsKeyText key) (s : List Char) :
    Settled (ofLone key) [] ((ofLone key).run s) := by
  have hpath := writesPath_ofLone hkey
  refine settled_run hpath (tolerates_ofLone hpath (keepsTail_ofLone key) key) ?_ ?_ s
  · intro w s t after hw _ hs hahead hreads
    exact (isSingle_ofLone key).reads_mono hpath hw hs hahead hreads
  · intro before s hs h
    exact (isSingle_ofLone key).passes hkey hs h

/-- The edit of a key settles its text. -/
lemma settled_run_ofKey (hlead : IsLead lead) (hkey : IsKeyText key) (s : List Char) :
    Settled (ofKey lead key) [] ((ofKey lead key).run s) := by
  have hpath := writesPath_ofKey hlead hkey
  obtain ⟨hname, hkeyTail⟩ := keepsTail_letters hlead hkey
  refine settled_run hpath (tolerates_ofKey hpath hname hkeyTail lead key) ?_ ?_ s
  · intro w s t after hw hne hs hahead hreads
    rcases hlead with rfl | ⟨a, ha, rfl⟩
    · exact (isSingle_ofKey hkey).reads_mono hpath hw hs hahead hreads
    · exact reads_dotted_mono hpath hkey hw hne hahead hreads
  · intro before s hs h
    rcases hlead with rfl | ⟨a, ha, rfl⟩
    · exact (isSingle_ofKey hkey).passes hkey hs h
    · exact settled_path ha hkey hs h

/-- A text stays settled for the bare word of key paths when a key is written. -/
lemma settled_ofLone_run (hlead : IsLead lead) (hkey : IsKeyText key) (hkey' : IsKeyText key')
    (h : Settled (ofLone key) [] s) : Settled (ofLone key) [] ((ofKey lead key').run s) := by
  have hpath := writesPath_ofKey hlead hkey'
  have hname := (keepsTail_letters hlead hkey').1
  exact (isSingle_ofLone key).settled_rewrites (writesPath_ofLone hkey).whole hpath
    (tolerates_ofLone hpath hname key) h (rewrites_run hpath.whole fun _ => rfl) .nil fun _ => rfl

/-- A text stays settled for a key when another key is written. -/
lemma settled_ofKey_run (hlead : IsLead lead) (hkey : IsKeyText key) (hkey' : IsKeyText key')
    (h : Settled (ofKey lead key) [] s) :
    Settled (ofKey lead key) [] ((ofKey lead key').run s) := by
  have hpath := writesPath_ofKey hlead hkey'
  obtain ⟨hname, hkeyTail⟩ := keepsTail_letters hlead hkey'
  have hahead : Rewrites (ofKey lead key') s ((ofKey lead key').run s) :=
    rewrites_run hpath.whole fun _ => rfl
  by_cases hkeys : key = key'
  · subst hkeys
    have hself : (ofKey lead key).run s = s := h.run_eq hpath.whole fun _ => rfl
    rwa [hself]
  · rcases hlead with rfl | ⟨a, ha, rfl⟩
    · exact (isSingle_ofKey hkey).settled_rewrites (writesPath_ofKey (.inl rfl) hkey).whole hpath
        (tolerates_ofKey hpath hname hkeyTail [] key) h hahead .nil fun _ => rfl
    · exact settled_rewrites_dotted ha hkey hkey' hkeys h hahead .nil fun _ => rfl

/-- Edits leave a text settled, if each settles a text and keeps it settled for those before. -/
lemma settled_foldl {es : List WordEdit} (hself : ∀ e ∈ es, ∀ s, Settled e [] (e.run s))
    (hkeep : es.Pairwise fun e e' => ∀ s, Settled e [] s → Settled e [] (e'.run s))
    (s : List Char) : ∀ e ∈ es, Settled e [] (es.foldl (fun s e => e.run s) s) := by
  induction es generalizing s with
  | nil => exact fun e he => absurd he not_mem_nil
  | cons e es ih =>
    obtain ⟨hfirst, hlater⟩ := pairwise_cons.1 hkeep
    obtain ⟨hselfFirst, hselfLater⟩ := forall_mem_cons.1 hself
    refine forall_mem_cons.2 ⟨?_, ih hselfLater hlater (e.run s)⟩
    -- the first edit has settled the text, and the others keep it so
    exact foldlRecOn (motive := Settled e []) es _ (hselfFirst s) fun t ht e' he' =>
      hfirst e' he' t ht

end WordEdit

namespace KeyBinding

/-- A key column: capitals, digits and underscores, not the word of key paths. -/
def IsColumn (key : String) : Prop :=
  key ≠ "" ∧ key.toList.all isCapital = true ∧ key ≠ "KEY"

instance (key : String) : Decidable (IsColumn key) :=
  inferInstanceAs (Decidable (key ≠ "" ∧ key.toList.all isCapital = true ∧ key ≠ "KEY"))

/-- A binding of a source whose key columns are written with arrows. -/
structure IsArrow (b : KeyBinding) : Prop where
  aliasName : b.aliasName = "" ∨ b.aliasName = primaryAlias ∨ b.aliasName = joinAlias
  style : b.style = .arrow
  keys : ∀ key ∈ b.keys, IsColumn key

lemma IsColumn.isKeyText {key : String} (h : IsColumn key) : WordEdit.IsKeyText key.toList where
  ne_nil hnil := h.1 (String.toList_inj.1 hnil)
  capital := all_eq_true.1 h.2.1
  ne_key hkey := h.2.2 (String.toList_inj.1 hkey)

/-- What stands in front of a key in a reference. -/
def leadOf (b : KeyBinding) : List Char :=
  if b.aliasName = "" then [] else b.aliasName.toList ++ ['.']

namespace IsArrow

variable {b : KeyBinding} (hb : b.IsArrow)

include hb

lemma isLead : WordEdit.IsLead b.leadOf := by
  unfold leadOf
  rcases hb.aliasName with h | h | h
  · rw [h]
    exact .inl rfl
  · rw [h]
    exact .inr ⟨'o', .inl rfl, rfl⟩
  · rw [h]
    exact .inr ⟨'i', .inr rfl, rfl⟩

lemma path_toList (key : String) : (b.path key).toList = WordEdit.arrow ++ key.toList := by
  unfold path
  rw [hb.style, String.toList_append]
  rfl

lemma keyEdit_eq (key : String) : b.keyEdit key = WordEdit.ofKey b.leadOf key.toList := by
  have hword : (b.reference key).toList = b.leadOf ++ key.toList := by
    unfold reference leadOf
    by_cases h : b.aliasName = ""
    · rw [if_pos h, h]
      rfl
    · rw [if_neg h, if_neg (by simpa using h), String.toList_append, String.toList_append]
      rfl
  have hempty : (b.aliasName != "") = !b.leadOf.isEmpty := by
    unfold leadOf
    by_cases h : b.aliasName = ""
    · rw [if_pos h, h]
      rfl
    · rw [if_neg h, bne_iff_ne.2 h]
      cases b.aliasName.toList <;> rfl
  unfold keyEdit WordEdit.ofKey
  rw [hword, hb.path_toList, hempty]

lemma loneEdit_eq (key : String) : b.loneEdit key = WordEdit.ofLone key.toList := by
  unfold loneEdit WordEdit.ofLone
  rw [hb.path_toList]
  rfl

/-- Every edit settles a text. -/
lemma settled_run (he : e ∈ b.edits) (s : List Char) : WordEdit.Settled e [] (e.run s) := by
  obtain ⟨-, ⟨lone, hkeys, rfl⟩ | ⟨key, hkey, rfl⟩⟩ := mem_edits_iff.1 he
  · rw [hb.loneEdit_eq]
    exact WordEdit.settled_run_ofLone (hb.keys lone (hkeys ▸ mem_cons_self)).isKeyText s
  · rw [hb.keyEdit_eq]
    exact WordEdit.settled_run_ofKey hb.isLead (hb.keys key hkey).isKeyText s

/-- A later edit keeps a text settled for an earlier one. -/
lemma settled_pairwise : b.edits.Pairwise fun e e' =>
    ∀ s, WordEdit.Settled e [] s → WordEdit.Settled e [] (e'.run s) := by
  unfold edits
  rw [hb.style, if_neg (by decide), pairwise_append]
  refine ⟨?_, ?_, ?_⟩
  · unfold loneEdits
    split
    · exact pairwise_singleton _ _
    · exact .nil
  · rw [pairwise_map]
    refine pairwise_of_forall_mem_list fun key hkey key' hkey' s h => ?_
    rw [hb.keyEdit_eq] at h ⊢
    rw [hb.keyEdit_eq]
    exact WordEdit.settled_ofKey_run hb.isLead (hb.keys key hkey).isKeyText
      (hb.keys key' hkey').isKeyText h
  · intro e he e' he' s h
    obtain ⟨lone, hlone, rfl⟩ : ∃ lone, b.keys = [lone] ∧ e = b.loneEdit lone := by
      unfold loneEdits at he
      split at he
      · next lone hlone => exact ⟨lone, hlone, mem_singleton.1 he⟩
      · exact absurd he not_mem_nil
    obtain ⟨key, hkey, rfl⟩ := mem_map.1 he'
    rw [hb.loneEdit_eq] at h ⊢
    rw [hb.keyEdit_eq]
    have hkeyLone := (hb.keys lone (hlone ▸ mem_cons_self)).isKeyText
    exact WordEdit.settled_ofLone_run hb.isLead hkeyLone (hb.keys key hkey).isKeyText h

/-- No edit changes a text that all have been applied to. -/
lemma run_apply (he : e ∈ b.edits) (clause : List Char) :
    e.run (b.apply clause) = b.apply clause := by
  rw [apply_eq]
  have hword : WholeWord e.word := by
    obtain ⟨-, ⟨lone, hkeys, rfl⟩ | ⟨key, hkey, rfl⟩⟩ := mem_edits_iff.1 he
    · rw [hb.loneEdit_eq]
      exact (WordEdit.writesPath_ofLone
        (hb.keys lone (hkeys ▸ mem_cons_self)).isKeyText).whole
    · rw [hb.keyEdit_eq]
      exact (WordEdit.writesPath_ofKey hb.isLead (hb.keys key hkey).isKeyText).whole
  have hsettled := WordEdit.settled_foldl (fun e he s => hb.settled_run he s) hb.settled_pairwise
    clause e he
  exact hsettled.run_eq hword fun _ => rfl

/-- Styling a clause twice is styling it once. -/
theorem apply_apply (clause : List Char) : b.apply (b.apply clause) = b.apply clause := by
  rw [apply_eq b (b.apply clause)]
  exact WordEdit.foldl_fixed fun e he => hb.run_apply he clause

end IsArrow

end KeyBinding

end StreamQuery
