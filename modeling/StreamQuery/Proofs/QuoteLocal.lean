import Mathlib.Tactic.Common
import StreamQuery.Text.Blank
import StreamQuery.Text.CaseFold
import StreamQuery.Text.Substitute
import StreamQuery.Text.WordChar

/-!
# Edits and quotation marks

No edit of finished clause texts reaches across a quotation mark: what it does on one side of a mark
does not depend on what stands on the other side, so it does to a string literal inside a text what
it does to the literal alone.  `Rule.Local` states this for a rule, `QuoteLocal` for an edit, and
`Rule.Local.substitute` leads from one to the other.  `Edits` is what is left of it for an edit that
acts once.
-/

namespace StreamQuery.Text

open List

/-! ## Patterns without quotation marks -/

lemma eq_mark_of_fold {c : Char} (h : fold c = '\'') : c = '\'' := by
  have hascii : ∀ n < 0x80, fold (Char.ofNat n) = '\'' → n = 39 := by decide
  have hruns : ∀ r ∈ foldRuns, 39 < r.2.2.2 := by decide +kernel
  have hofNat : ∀ n, Char.ofNat n = '\'' → n = 39 := by
    intro n hn
    unfold Char.ofNat at hn
    by_cases hvalid : n.isValidChar
    · rw [dif_pos hvalid] at hn
      exact congrArg Char.toNat hn
    · rw [dif_neg hvalid] at hn
      exact absurd hn (by decide)
  by_cases hc : c.toNat < 0x80
  · have hn : c.toNat = 39 := hascii c.toNat hc (by rwa [Char.ofNat_toNat])
    rw [← Char.ofNat_toNat c, hn]
  · -- beyond ASCII nothing is folded to so low a code point
    rw [fold, if_neg hc] at h
    have hcode := hofNat _ h
    unfold foldCode at hcode
    split at hcode
    · next r hr =>
      have hr' := hruns r (mem_of_find?_eq_some hr)
      omega
    · omega

variable {q : Char} {u after : List Char}

/-- A match is as long as the pattern, and has no mark if that has none. -/
lemma dropFolded?_split {word s : List Char} (h : dropFolded? word s = some after) :
    ∃ m, s = m ++ after ∧ m.length = word.length ∧ ('\'' ∉ word → '\'' ∉ m) := by
  induction word generalizing s with
  | nil =>
    rw [dropFolded?_nil] at h
    cases h
    exact ⟨[], rfl, rfl, fun h => h⟩
  | cons p word ih =>
    cases s with
    | nil => cases h
    | cons c s =>
      rw [dropFolded?] at h
      split at h
      · next hfold =>
        obtain ⟨m, rfl, hlength, hmark⟩ := ih h
        refine ⟨c :: m, rfl, congrArg (· + 1) hlength, fun hword => ?_⟩
        rw [mem_cons, not_or] at hword ⊢
        refine ⟨fun hc => hword.1 ?_, hmark hword.2⟩
        have hmarked : fold '\'' = '\'' := by decide
        rw [← hc, hmarked, beq_iff_eq] at hfold
        exact (eq_mark_of_fold hfold).symm
      · cases h

/-- A pattern without a mark looks no further than the next mark. -/
lemma dropFolded?_append {word : List Char} (hword : '\'' ∉ word) (hu : '\'' ∈ u)
    (post : List Char) :
    dropFolded? word (u ++ post) = (dropFolded? word u).map (· ++ post) := by
  induction word generalizing u with
  | nil => rw [dropFolded?_nil, dropFolded?_nil, Option.map_some]
  | cons p word ih =>
    obtain _ | ⟨c, u⟩ := u
    · cases hu
    rw [mem_cons, not_or] at hword
    rw [cons_append, dropFolded?, dropFolded?]
    split
    · next hfold =>
      refine ih hword.2 ?_
      rcases mem_cons.1 hu with hc | hu
      · -- the pattern does not match the mark itself
        have hmarked : fold '\'' = '\'' := by decide
        rw [← hc, hmarked, beq_iff_eq] at hfold
        exact absurd (eq_mark_of_fold hfold).symm hword.1
      · exact hu
    · rfl

/-- A part without a character does not tell what is behind it. -/
lemma isPrefixOf_append_cons {part : List Char} (hpart : q ∉ part) (u rest : List Char) :
    part.isPrefixOf (u ++ q :: rest) = part.isPrefixOf u := by
  induction part generalizing u with
  | nil => simp
  | cons p part ih =>
    obtain ⟨hp, hrest⟩ := not_or.1 (mt mem_cons.2 hpart)
    cases u with
    | nil =>
      have hne : (p == q) = false := beq_eq_false_iff_ne.2 (Ne.symm hp)
      rw [nil_append, isPrefixOf_cons_cons, hne]
      rfl
    | cons c u => rw [cons_append, isPrefixOf, isPrefixOf, ih hrest]

/-- A part without a mark does not reach beyond the mark. -/
lemma isPrefixOf_append {part : List Char} (hpart : q ∉ part) (hu : q ∈ u) (post : List Char) :
    part.isPrefixOf (u ++ post) = part.isPrefixOf u := by
  obtain ⟨near, far, rfl⟩ := append_of_mem hu
  rw [append_assoc, cons_append, isPrefixOf_append_cons hpart, isPrefixOf_append_cons hpart]

section

variable {p : Char → Bool} {q : Char} (hp : p q = false)

include hp

lemma takeWhile_append_cons (u rest : List Char) :
    (u ++ q :: rest).takeWhile p = u.takeWhile p := by
  rw [takeWhile_append, takeWhile_cons_of_neg (by rw [hp]; decide), append_nil]
  split
  · next hall => exact ((List.takeWhile_prefix p).eq_of_length hall).symm
  · rfl

lemma dropWhile_append_cons (u rest : List Char) :
    (u ++ q :: rest).dropWhile p = u.dropWhile p ++ q :: rest := by
  rw [dropWhile_append]
  split
  · next hempty =>
    rw [isEmpty_iff.1 hempty, dropWhile_cons_of_neg (by rw [hp]; decide)]
    rfl
  · rfl

/-- What is taken ends before a character that is not. -/
lemma takeWhile_append_of_mem {u : List Char} (hu : q ∈ u) (post : List Char) :
    (u ++ post).takeWhile p = u.takeWhile p := by
  obtain ⟨near, far, rfl⟩ := append_of_mem hu
  rw [append_assoc, cons_append, takeWhile_append_cons hp, takeWhile_append_cons hp]

/-- What is dropped ends before a character that is not. -/
lemma dropWhile_append_of_mem {u : List Char} (hu : q ∈ u) (post : List Char) :
    (u ++ post).dropWhile p = u.dropWhile p ++ post := by
  obtain ⟨near, far, rfl⟩ := append_of_mem hu
  rw [append_assoc, cons_append, dropWhile_append_cons hp, dropWhile_append_cons hp,
    append_assoc, cons_append]

lemma not_mem_takeWhile (s : List Char) : q ∉ s.takeWhile p := by
  intro hmem
  have htrue := all_eq_true.1 (all_takeWhile (p := p) (l := s)) _ hmem
  rw [hp] at htrue
  cases htrue

lemma mem_dropWhile {u : List Char} (hu : q ∈ u) : q ∈ u.dropWhile p := by
  rw [← takeWhile_append_dropWhile (p := p) (l := u)] at hu
  exact (mem_append.1 hu).resolve_left (not_mem_takeWhile hp u)

end

/-- A part without a character of a text ends before the character. -/
lemma split_before_mark {y post m : List Char} (h : y ++ q :: post = m ++ after) (hm : q ∉ m) :
    ∃ y', y = m ++ y' ∧ after = y' ++ q :: post := by
  rcases append_eq_append_iff.1 h with ⟨a, rfl, ha⟩ | hsplit
  · obtain _ | ⟨c, a⟩ := a
    · exact ⟨[], by simp, ha.symm⟩
    · -- the part would hold the mark
      obtain rfl : q = c := (cons.inj ha).1
      exact absurd (by simp) hm
  · exact hsplit

/-- A part without a mark ends before the mark. -/
lemma length_le_of_mark {y post m : List Char} (h : y ++ q :: post = m ++ after) (hm : q ∉ m) :
    m.length ≤ y.length := by
  obtain ⟨y', rfl, -⟩ := split_before_mark h hm
  rw [length_append]
  exact Nat.le_add_right ..

/-- A text is divided at the first place of a character in one way only. -/
lemma append_mark_inj {s t s' t' : List Char} (h : s ++ q :: s' = t ++ q :: t') (hs : q ∉ s)
    (ht : q ∉ t) : s = t ∧ s' = t' := by
  obtain ⟨a, rfl, ha⟩ := split_before_mark h ht
  obtain _ | ⟨c, a⟩ := a
  · exact ⟨append_nil t, (cons.inj ha).2.symm⟩
  · obtain ⟨rfl, -⟩ := cons.inj ha
    exact absurd (by simp) hs

lemma head?_append_of_mem (hu : q ∈ u) (post : List Char) : (u ++ post).head? = u.head? := by
  obtain _ | ⟨c, u⟩ := u
  · cases hu
  · rfl

/-! ## Rules -/

/-- A rule that does not reach across a quotation mark. -/
structure Rule.Local (rule : Rule) : Prop where
  ahead : ∀ before u post, '\'' ∈ u → rule before (u ++ post) = rule before u
  behind : ∀ near before rest, rule (near ++ '\'' :: before) rest = rule (near ++ ['\'']) rest
  taken : ∀ before y n written, rule before (y ++ ['\'']) = some (n, written) → n ≤ y.length
  still : ∀ before rest n written, rule before ('\'' :: rest) = some (n, written) → written = []
  atEnd : ∀ before n written, rule ('\'' :: before) [] = some (n, written) → written = []

/-! ## Edits -/

/-- An edit of texts as an edit of their characters. -/
def overChars (f : String → String) (s : List Char) : List Char :=
  (f (String.ofList s)).toList

lemma overChars_comp (g f : String → String) :
    (overChars fun s => g (f s)) = fun s => overChars g (overChars f s) := by
  funext s
  simp only [overChars, String.ofList_toList]

/-- What holds of no edit and of one after another holds of a list. -/
lemma foldl_closed {P : (List Char → List Char) → Prop} (hid : P fun s => s)
    (hcomp : ∀ {g f : List Char → List Char}, P g → P f → P fun s => g (f s)) {α : Type}
    {edit : List Char → α → List Char} (xs : List α) (h : ∀ x ∈ xs, P fun s => edit s x) :
    P fun s => xs.foldl edit s := by
  induction xs with
  | nil => exact hid
  | cons x xs ih =>
    have hx := h x (mem_cons_self ..)
    have hxs := ih (forall_mem_cons.1 h).2
    exact hcomp (g := fun s => xs.foldl edit s) (f := fun s => edit s x) hxs hx

/-- An edit that takes a text apart at its quotation marks: what it writes for the part before a
mark, between two marks and behind a mark depends on that part only. -/
def QuoteLocal (f : List Char → List Char) : Prop :=
  ∃ first middle last : List Char → List Char,
    (first [] = [] ∧ last [] = []) ∧
    (∀ a b, f (a ++ '\'' :: b) = first a ++ '\'' :: last b) ∧
    ∀ m b, last (m ++ '\'' :: b) = middle m ++ '\'' :: last b

namespace QuoteLocal

variable {f g : List Char → List Char}

lemma id : QuoteLocal fun s => s :=
  ⟨fun a => a, fun m => m, fun b => b, ⟨rfl, rfl⟩, fun _ _ => rfl, fun _ _ => rfl⟩

/-- Edits that stay within marks do so one after another. -/
lemma comp (hg : QuoteLocal g) (hf : QuoteLocal f) : QuoteLocal fun s => g (f s) := by
  obtain ⟨gFirst, gMiddle, gLast, ⟨hgFirst, hgLast⟩, hgParts, hgMiddle⟩ := hg
  obtain ⟨fFirst, fMiddle, fLast, ⟨hfFirst, hfLast⟩, hfParts, hfMiddle⟩ := hf
  refine ⟨fun a => gFirst (fFirst a), fun m => gMiddle (fMiddle m), fun b => gLast (fLast b),
    ⟨?_, ?_⟩, fun a b => ?_, fun m b => ?_⟩
  · simp only [hfFirst, hgFirst]
  · simp only [hfLast, hgLast]
  · simp only [hfParts, hgParts]
  · simp only [hfMiddle, hgMiddle]

lemma foldl {α : Type} {edit : List Char → α → List Char} (xs : List α)
    (h : ∀ x ∈ xs, QuoteLocal fun s => edit s x) : QuoteLocal fun s => xs.foldl edit s :=
  foldl_closed id comp xs h

end QuoteLocal

/-! ### Literals in a text -/

/-- A text in quotation marks. -/
def IsQuoted (lit : List Char) : Prop :=
  ∃ body, lit = '\'' :: (body ++ ['\''])

lemma quoted_append {before body post : List Char} :
    before ++ '\'' :: (body ++ ['\'']) ++ post = before ++ '\'' :: (body ++ '\'' :: post) := by
  simp

/-- Where the literal `lit` stands between `before` and `post`, the edit writes `before'`, `lit'`
and `post'`, and `before'` before any mark there. -/
structure Edits (f : List Char → List Char) (before lit post before' lit' post' : List Char) :
    Prop where
  mark : f (before ++ ['\'']) = before' ++ ['\'']
  text : f (before ++ lit ++ post) = before' ++ lit' ++ post'

/-- One edit after another. -/
lemma Edits.comp {f g : List Char → List Char}
    {before lit post before' lit' post' before'' lit'' post'' : List Char}
    (hg : Edits g before' lit' post' before'' lit'' post'')
    (hf : Edits f before lit post before' lit' post') :
    Edits (fun s => g (f s)) before lit post before'' lit'' post'' where
  mark := by rw [hf.mark, hg.mark]
  text := by rw [hf.text, hg.text]

/-- Such an edit does to a literal in a text what it does to the literal alone, and leaves a
literal. -/
theorem QuoteLocal.edits {f : List Char → List Char} (hf : QuoteLocal f) {lit : List Char}
    (hlit : IsQuoted lit) (before post : List Char) :
    IsQuoted (f lit) ∧ ∃ before' post', Edits f before lit post before' (f lit) post' ∧
      f ('\'' :: post) = '\'' :: post' := by
  obtain ⟨first, middle, last, ⟨hfirst, hlast⟩, hparts, hmiddle⟩ := hf
  obtain ⟨body, rfl⟩ := hlit
  have hmark : f (before ++ ['\'']) = first before ++ ['\''] := by rw [hparts, hlast]
  have hpost : f ('\'' :: post) = '\'' :: last post := by
    have h := hparts [] post
    rw [hfirst] at h
    exact h
  have halone : f ('\'' :: (body ++ ['\''])) = '\'' :: (middle body ++ ['\'']) := by
    have h := hparts [] (body ++ ['\''])
    rw [hmiddle, hfirst, hlast] at h
    exact h
  refine ⟨⟨middle body, halone⟩, first before, last post, ⟨hmark, ?_⟩, hpost⟩
  rw [quoted_append, hparts, hmiddle, halone]
  simp

/-! ## Substitution -/

/-- A substitution takes a text apart at a mark that its rule neither takes nor looks behind.  Here
`P` restricts what can follow the mark, and `g` is what becomes of it. -/
lemma substituteFrom_part {rule : Rule} {P : List Char → Prop} {g : List Char → List Char}
    (hahead : ∀ before y post, P post → rule before (y ++ '\'' :: post) = rule before (y ++ ['\'']))
    (htaken : ∀ before y n written, rule before (y ++ ['\'']) = some (n, written) → n ≤ y.length)
    (hmark : ∀ before post, P post → substituteFrom rule 0 before ('\'' :: post) = '\'' :: g post)
    (skip : Nat) (before a : List Char) (hskip : skip ≤ a.length) :
    ∃ first, (a = [] → first = []) ∧ ∀ post, P post →
      substituteFrom rule skip before (a ++ '\'' :: post) = first ++ '\'' :: g post := by
  induction a generalizing skip before with
  | nil =>
    obtain rfl : skip = 0 := Nat.le_zero.1 hskip
    exact ⟨[], fun _ => rfl, fun post hpost => hmark before post hpost⟩
  | cons c a ih =>
    have hrule : ∀ post, P post →
        rule before (c :: (a ++ '\'' :: post)) = rule before (c :: (a ++ ['\''])) :=
      fun post hpost => hahead before (c :: a) post hpost
    cases skip with
    | succ skip =>
      obtain ⟨first, -, hfirst⟩ := ih skip (c :: before) (Nat.le_of_succ_le_succ hskip)
      refine ⟨first, fun ha => (by cases ha), fun post hpost => ?_⟩
      rw [cons_append, substituteFrom, hfirst post hpost]
    | zero =>
      cases hmatch : rule before (c :: (a ++ ['\''])) with
      | none =>
        obtain ⟨first, -, hfirst⟩ := ih 0 (c :: before) (Nat.zero_le _)
        refine ⟨c :: first, fun ha => (by cases ha), fun post hpost => ?_⟩
        simp only [cons_append, substituteFrom, hrule post hpost, hmatch, hfirst post hpost]
      | some found =>
        obtain ⟨n, written⟩ := found
        cases n with
        | zero =>
          obtain ⟨first, -, hfirst⟩ := ih 0 (c :: before) (Nat.zero_le _)
          refine ⟨written ++ c :: first, fun ha => (by cases ha), fun post hpost => ?_⟩
          simp only [cons_append, substituteFrom, hrule post hpost, hmatch, hfirst post hpost,
            append_assoc]
        | succ n =>
          have hn := Nat.le_of_succ_le_succ (htaken before (c :: a) (n + 1) written hmatch)
          obtain ⟨first, -, hfirst⟩ := ih n (c :: before) hn
          refine ⟨written ++ first, fun ha => (by cases ha), fun post hpost => ?_⟩
          simp only [cons_append, substituteFrom, hrule post hpost, hmatch, hfirst post hpost,
            append_assoc]

/-- What precedes a mark does not matter to a substitution, if not to the rule. -/
lemma substituteFrom_behind {rule : Rule}
    (hbehind : ∀ near before rest, rule (near ++ '\'' :: before) rest = rule (near ++ ['\'']) rest)
    (skip : Nat) (near before rest : List Char) :
    substituteFrom rule skip (near ++ '\'' :: before) rest =
      substituteFrom rule skip (near ++ ['\'']) rest := by
  induction rest generalizing skip near with
  | nil =>
    cases skip with
    | zero => simp only [substituteFrom, hbehind]
    | succ skip => rfl
  | cons c rest ih =>
    have hnext : ∀ skip, substituteFrom rule skip (c :: (near ++ '\'' :: before)) rest =
        substituteFrom rule skip (c :: (near ++ ['\''])) rest := fun skip => ih skip (c :: near)
    cases skip with
    | zero => simp only [substituteFrom, hbehind, hnext]
    | succ skip => simp only [substituteFrom, hnext]

namespace Rule.Local

variable {rule : Rule} (h : rule.Local)

include h

lemma ahead_mark (before y post : List Char) :
    rule before (y ++ '\'' :: post) = rule before (y ++ ['\'']) := by
  have hmem : '\'' ∈ y ++ ['\''] := by simp
  simpa using h.ahead before _ post hmem

/-- A mark is kept, and all starts anew behind it. -/
lemma substituteFrom_mark (before post : List Char) :
    substituteFrom rule 0 before ('\'' :: post) =
      '\'' :: substituteFrom rule 0 ['\''] post := by
  have hnew : substituteFrom rule 0 ('\'' :: before) post = substituteFrom rule 0 ['\''] post :=
    substituteFrom_behind h.behind 0 [] before post
  rw [substituteFrom]
  split
  · rw [hnew]
  · next written hrule =>
    rw [h.still _ _ _ _ hrule, hnew]
    rfl
  · next n written hrule =>
    have hmark := (h.ahead_mark before [] post).symm.trans hrule
    cases h.taken before [] (n + 1) written hmark

/-- A substitution whose rule stays within marks takes texts apart there. -/
theorem substitute : QuoteLocal (substitute rule) := by
  have hpart : ∀ before a, ∃ first, (a = [] → first = []) ∧ ∀ post,
      substituteFrom rule 0 before (a ++ '\'' :: post) =
        first ++ '\'' :: substituteFrom rule 0 ['\''] post := by
    intro before a
    obtain ⟨first, hnil, hfirst⟩ := substituteFrom_part (P := fun _ => True)
      (fun before y post _ => h.ahead_mark before y post) h.taken
      (fun before post _ => h.substituteFrom_mark before post) 0 before a (Nat.zero_le _)
    exact ⟨first, hnil, fun post => hfirst post trivial⟩
  choose first hnil hfirst using hpart
  refine ⟨first [], first ['\''], substituteFrom rule 0 ['\''], ⟨hnil [] [] rfl, ?_⟩, hfirst [],
    hfirst ['\'']⟩
  rw [substituteFrom]
  split
  · next n written hrule => exact h.atEnd _ _ _ hrule
  · rfl

end Rule.Local

end StreamQuery.Text
