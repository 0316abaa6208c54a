import StreamQuery.Proofs.AliasEdits
import StreamQuery.Proofs.ScalarForms

/-!
# Texts with and without an alias

`Aliased` relates a clause text without the alias of the primary source to the text with `o.` in
front of some columns.  Sound templates keep texts related (`aliased_fillRelation`), so the relation
holds between whole clauses, and dropping the aliases makes related texts equal
(`dropFromClause_aliased`): no alias that was put in is followed by a quotation mark, and the plain
form takes out every alias that was put in.
-/

namespace StreamQuery

open Text AliasScope Template List

/-! ## Texts that differ in aliases -/

/-- A column name: letters, digits and underscores. -/
def IsColumnName (name : List Char) : Prop :=
  name ≠ [] ∧ ∀ c ∈ name, isNamePart c = true

instance (name : List Char) : Decidable (IsColumnName name) :=
  decidable_of_iff (!name.isEmpty && name.all isNamePart) (by simp [IsColumnName])

lemma opensHole_cases {P : Char → Prop} (hspace : P ' ') (hopen : P '(') (hminus : P '-') {c : Char}
    (h : opensHole c) : P c := by
  simp only [opensHole, Bool.or_eq_true, beq_iff_eq] at h
  rcases h with (rfl | rfl) | rfl
  · exact hspace
  · exact hopen
  · exact hminus

lemma endsHole_cases {P : Char → Prop} (hspace : P ' ') (hopen : P '(') (hclose : P ')')
    (hcomma : P ',') {c : Char} (h : endsHole c) : P c := by
  simp only [endsHole, Bool.or_eq_true, beq_iff_eq] at h
  rcases h with ((rfl | rfl) | rfl) | rfl
  · exact hspace
  · exact hopen
  · exact hclose
  · exact hcomma

lemma opensHole_of_isWord {c : Char} (h : isWord c) : opensHole c = false := by
  by_contra hopens
  have hnot : isWord c = false :=
    opensHole_cases (P := fun c => isWord c = false) rfl rfl rfl
      (Bool.eq_true_of_not_eq_false hopens)
  rw [h] at hnot
  cases hnot

/-- The second text is the first with the primary alias in front of some columns; `fresh` holds at
the start of a column. -/
inductive Aliased : (fresh : Bool) → (s t : List Char) → Prop
  | nil (fresh : Bool) : Aliased fresh [] []
  | keep (fresh : Bool) (c : Char) {s t : List Char} (h : Aliased (opensHole c) s t) :
      Aliased fresh (c :: s) (c :: t)
  | column {name s t : List Char} (hname : IsColumnName name) (hs : stops s = true)
      (h : Aliased false s t) : Aliased true (name ++ s) ('o' :: '.' :: (name ++ t))

namespace Aliased

variable {fresh : Bool} {s t : List Char}

lemma anywhere (h : Aliased false s t) : Aliased fresh s t := by
  cases h with
  | nil => exact .nil fresh
  | keep _ c h => exact .keep fresh c h

lemma head?_eq (h : Aliased false s t) : s.head? = t.head? := by
  cases h with
  | nil => rfl
  | keep => rfl

lemma append (x : List Char) (h : Aliased false s t) : Aliased fresh (x ++ s) (x ++ t) := by
  induction x generalizing fresh with
  | nil => exact h.anywhere
  | cons c x ih => exact .keep fresh c ih

/-- Characters that no column follows are the same on both sides. -/
lemma span {p : Char → Bool} (hp : ∀ c, p c → opensHole c = false) (h : Aliased false s t) :
    s.takeWhile p = t.takeWhile p ∧ Aliased false (s.dropWhile p) (t.dropWhile p) := by
  induction s generalizing t with
  | nil =>
    cases h with
    | nil => exact ⟨rfl, .nil false⟩
  | cons c s ih =>
    cases h with
    | @keep _ _ _ t h =>
      by_cases hc : p c
      · rw [hp c hc] at h
        obtain ⟨htake, hdrop⟩ := ih h
        rw [takeWhile_cons_of_pos hc, takeWhile_cons_of_pos hc,
          dropWhile_cons_of_pos hc, dropWhile_cons_of_pos hc, htake]
        exact ⟨rfl, hdrop⟩
      · rw [takeWhile_cons_of_neg hc, takeWhile_cons_of_neg hc,
          dropWhile_cons_of_neg hc, dropWhile_cons_of_neg hc]
        exact ⟨rfl, .keep false c h⟩

end Aliased

/-! ## Templates keep aliases apart -/

/-- Two texts that fit into the same holes, the second with aliases. -/
def AliasedPart (a b : List Char) : Prop :=
  ∀ rest rest', stops rest = true → Aliased false rest rest' → Aliased true (a ++ rest) (b ++ rest')

lemma AliasedPart.refl (a : List Char) : AliasedPart a a :=
  fun _ _ _ h => h.append a

lemma AliasedPart.column {name : List Char} (hname : IsColumnName name) :
    AliasedPart name ('o' :: '.' :: name) :=
  fun _ _ hstops h => .column hname hstops h

/-- A template that is filled with related arguments in front of related texts. -/
lemma Aliased.fill {as bs : List (List Char)} (hargs : List.Forall₂ AliasedPart as bs)
    {t : Template} {fresh : Bool} (hspaced : t.isSpaced fresh) (hfits : t.fits as.length)
    {rest rest' : List Char} (hstops : stops rest) (hrest : Aliased false rest rest') :
    Aliased fresh (t.fill as ++ rest) (t.fill bs ++ rest') := by
  induction t generalizing fresh with
  | nil => exact hrest.anywhere
  | cons piece t ih =>
    rw [fits, all_cons, Bool.and_eq_true] at hfits
    cases piece with
    | char c => exact .keep fresh c (ih hspaced hfits.2)
    | hole i =>
      rw [isSpaced, Bool.and_eq_true, Bool.and_eq_true] at hspaced
      obtain ⟨⟨rfl, hapart⟩, hspaced⟩ := hspaced
      have hi : (i : Nat) < as.length := by simpa using hfits.1
      have harg : AliasedPart (as.getD i []) (bs.getD i []) := by
        have hi' : (i : Nat) < bs.length := hargs.length_eq ▸ hi
        rw [getD_eq_getElem?_getD, getD_eq_getElem?_getD, getElem?_eq_getElem hi,
          getElem?_eq_getElem hi']
        exact hargs.get hi hi'
      have hnext := stops_fill hapart as hstops
      rw [Template.fill, Template.fill, append_assoc, append_assoc]
      exact harg _ _ hnext (ih hspaced hfits.2)

/-- Sound templates keep texts related. -/
lemma aliased_fillRelation : FillRelation AliasedPart where
  plain s _ := .refl s
  fill _ _ _ ht hfits hargs _ _ hstops hrest := Aliased.fill hargs ht.spaced hfits hstops hrest

/-! ## References -/

/-- A form whose references hold no character that a column follows. -/
structure AliasScope.Form.Inside (f : Form) : Prop where
  holds : ∀ c, f.holds c = true → opensHole c = false
  quote : ∀ q, f.quote = some q → opensHole q = false

namespace Aliased

variable {fresh : Bool} {s t : List Char} {f : Form}

/-- A reference is found on both sides or on none, with the same column. -/
lemma column? (hf : f.Inside) (h : Aliased false s t) :
    f.column? s = f.column? t ∧ ∀ column, f.column? s = some column →
      ∃ s' t', s = f.write column ++ s' ∧ t = f.write column ++ t' ∧ Aliased false s' t' := by
  cases hquote : f.quote with
  | none =>
    obtain ⟨htake, hdrop⟩ := h.span hf.holds
    rw [Form.column?_plain hquote, Form.column?_plain hquote, htake]
    refine ⟨rfl, fun column hcolumn => ?_⟩
    split at hcolumn
    · cases hcolumn
      refine ⟨_, _, ?_, ?_, hdrop⟩
      · rw [Form.write, hquote, ← htake]
        exact (takeWhile_append_dropWhile ..).symm
      · rw [Form.write, hquote]
        exact (takeWhile_append_dropWhile ..).symm
    · cases hcolumn
  | some q =>
    cases h with
    | nil =>
      refine ⟨rfl, fun column hcolumn => ?_⟩
      unfold Form.column? at hcolumn
      rw [hquote] at hcolumn
      cases hcolumn
    | @keep _ c s t h =>
      rw [Form.column?_quoted hquote, Form.column?_quoted hquote]
      by_cases hc : c = q
      · rw [hc, hf.quote q hquote] at h
        obtain ⟨htake, hdrop⟩ := h.span hf.holds
        rw [htake, hdrop.head?_eq]
        refine ⟨rfl, fun column hcolumn => ?_⟩
        split at hcolumn
        · next hfound =>
          cases hcolumn
          obtain ⟨s', hs'⟩ := head?_eq_some_iff.1 (hdrop.head?_eq.trans hfound.2.2)
          obtain ⟨t', ht'⟩ := head?_eq_some_iff.1 hfound.2.2
          rw [hs', ht'] at hdrop
          have hrest : Aliased false s' t' := by
            cases hdrop with
            | keep _ _ hrest => rwa [hf.quote q hquote] at hrest
          refine ⟨s', t', ?_, ?_, hrest⟩
          · rw [Form.write, hquote, hc, ← htake]
            have happend := takeWhile_append_dropWhile (p := f.holds) (l := s)
            rw [hs'] at happend
            nth_rewrite 1 [← happend]
            simp
          · rw [Form.write, hquote, hc]
            have happend := takeWhile_append_dropWhile (p := f.holds) (l := t)
            rw [ht'] at happend
            nth_rewrite 1 [← happend]
            simp
        · cases hcolumn
      · rw [if_neg fun h => hc h.1, if_neg fun h => hc h.1]
        exact ⟨rfl, fun column hcolumn => by cases hcolumn⟩

/-- At a common character, both texts have a reference with the same column, or none has. -/
lemma reference? (hf : f.Inside) {c : Char} (h : Aliased (opensHole c) s t)
    {before before' : List Char} (hbefore : startsWord before = startsWord before') :
    reference? ['o'] f before (c :: s) = reference? ['o'] f before' (c :: t) ∧
      ∀ column, reference? ['o'] f before (c :: s) = some column →
        ∃ lead s' t', lead.length = 2 ∧ c :: s = lead ++ f.write column ++ s' ∧
          c :: t = lead ++ f.write column ++ t' ∧ Aliased false s' t' := by
  have hboundary : wordBoundary before (c :: s) = wordBoundary before' (c :: t) := by
    unfold wordBoundary
    rw [hbefore]
    rfl
  -- the two texts are compared behind the alias and its dot
  have hdot : (dropFolded? ['o', '.'] (c :: s) = none ∧ dropFolded? ['o', '.'] (c :: t) = none) ∨
      ∃ s' t', s = '.' :: s' ∧ t = '.' :: t' ∧ dropFolded? ['o', '.'] (c :: s) = some s' ∧
        dropFolded? ['o', '.'] (c :: t) = some t' ∧ Aliased false s' t' := by
    by_cases hc : fold 'o' = fold c
    · have hletter : ∀ rest, dropFolded? ['o', '.'] (c :: rest) = dropFolded? ['.'] rest := by
        intro rest
        rw [dropFolded?, if_pos (beq_iff_eq.2 hc)]
      rw [opensHole_of_isWord (isWord_of_fold (p := 'o') (by decide) hc.symm)] at h
      rw [hletter, hletter]
      cases h with
      | nil => exact .inl ⟨rfl, rfl⟩
      | @keep _ d s t h =>
        by_cases hd : fold '.' = fold d
        · obtain rfl := eq_dot_of_fold hd.symm
          exact .inr ⟨s, t, rfl, rfl, dropFolded?_nil s, dropFolded?_nil t, h⟩
        · have hnone : ∀ rest, dropFolded? ['.'] (d :: rest) = none := by
            intro rest
            rw [dropFolded?, if_neg (mt beq_iff_eq.1 hd)]
          exact .inl ⟨hnone s, hnone t⟩
    · have hnone : ∀ rest, dropFolded? ['o', '.'] (c :: rest) = none := by
        intro rest
        rw [dropFolded?, if_neg (mt beq_iff_eq.1 hc)]
      exact .inl ⟨hnone s, hnone t⟩
  unfold AliasScope.reference?
  rw [hboundary]
  rcases hdot with ⟨hs, ht⟩ | ⟨s', t', rfl, rfl, hs, ht, hrest⟩
  · rw [singleton_append, hs, ht]
    refine ⟨rfl, fun column hcolumn => ?_⟩
    rw [Option.bind_none, ite_self] at hcolumn
    cases hcolumn
  · obtain ⟨hsame, hfound⟩ := hrest.column? hf
    rw [singleton_append, hs, ht, Option.bind_some, Option.bind_some, hsame]
    refine ⟨rfl, fun column hcolumn => ?_⟩
    split at hcolumn
    · obtain ⟨x, y, rfl, rfl, hxy⟩ := hfound column (hsame.trans hcolumn)
      exact ⟨[c, '.'], x, y, rfl, rfl, rfl, hxy⟩
    · cases hcolumn

end Aliased

/-! ## Dropping the aliases -/

section

variable {f : Form}

/-- A clause without the references of a form behind the primary alias. -/
def dropForm (f : Form) (before s : List Char) : List Char :=
  substituteFrom (referenceRule ['o'] f f.write) 0 before s

variable {name : List Char} {c : Char} {s : List Char}

lemma dropForm_kept {before : List Char} (h : reference? ['o'] f before (c :: s) = none) :
    dropForm f before (c :: s) = c :: dropForm f (c :: before) s := by
  refine substituteFrom_kept ?_
  rw [referenceRule, h]
  rfl

/-- A reference loses its alias. -/
lemma dropForm_found {before lead column : List Char} (hlead : lead.length = 2)
    (h : reference? ['o'] f before (lead ++ f.write column ++ s) = some column) :
    dropForm f before (lead ++ f.write column ++ s) = f.write column ++
      dropForm f ((lead ++ f.write column).reverse ++ before) s := by
  have hrule : referenceRule ['o'] f f.write before (lead ++ f.write column ++ s) =
      some ((lead ++ f.write column).length, f.write column) := by
    rw [referenceRule, h, Option.map_some, length_append, hlead]
    rfl
  refine substituteFrom_taken ?_ hrule
  rw [Ne, ← length_eq_zero_iff, length_append]
  omega

lemma reference?_of_fold (hc : fold 'o' ≠ fold c) (before rest : List Char) :
    reference? ['o'] f before (c :: rest) = none := by
  unfold reference?
  rw [singleton_append, dropFolded?, if_neg (mt beq_iff_eq.1 hc), Option.bind_none, ite_self]

/-- Inside a column name there is no reference. -/
lemma reference?_name (hname : ∀ d ∈ name, isNamePart d) (hs : stops s) (before : List Char) :
    reference? ['o'] f before (c :: (name ++ s)) = none := by
  -- no full stop follows
  have hdot : dropFolded? ['.'] (name ++ s) = none := by
    have hne : ∀ d rest, d ≠ '.' → dropFolded? ['.'] (d :: rest) = none := by
      intro d rest hd
      rw [dropFolded?, if_neg fun hfold => hd (eq_dot_of_fold (beq_iff_eq.1 hfold).symm)]
    cases name with
    | cons d name =>
      refine hne d _ ?_
      rintro rfl
      exact absurd (hname '.' (mem_cons_self ..)) (by decide)
    | nil =>
      cases s with
      | nil => rfl
      | cons d s =>
        exact hne d s (endsHole_cases (P := fun d => d ≠ '.') (by decide) (by decide) (by decide)
          (by decide) hs)
  unfold reference?
  rw [singleton_append, dropFolded?, hdot, ite_self, Option.bind_none, ite_self]

/-- A column name without alias stays. -/
lemma dropForm_name (hname : ∀ c ∈ name, isNamePart c) (hs : stops s) (before : List Char) :
    dropForm f before (name ++ s) = name ++ dropForm f (name.reverse ++ before) s := by
  induction name generalizing before with
  | nil => rfl
  | cons c name ih =>
    have htail : ∀ d ∈ name, isNamePart d := (forall_mem_cons.1 hname).2
    rw [cons_append, dropForm_kept (reference?_name htail hs before), ih htail,
      reverse_cons, append_assoc]
    rfl

lemma dropForm_nil (before : List Char) : dropForm f before [] = [] := by
  have hnone : referenceRule ['o'] f f.write before [] = none := by
    rw [referenceRule, reference?]
    split
    · rfl
    · rfl
  unfold dropForm substituteFrom
  rw [hnone]

lemma stops_dropForm (hs : stops s) (before : List Char) : stops (dropForm f before s) := by
  cases s with
  | nil =>
    rw [dropForm_nil]
    rfl
  | cons c s =>
    have hc : fold 'o' ≠ fold c :=
      endsHole_cases (P := fun c => fold 'o' ≠ fold c) (by decide) (by decide) (by decide)
        (by decide) hs
    rw [dropForm_kept (reference?_of_fold hc before s)]
    exact hs

lemma startsWord_reverse {m : List Char} (hm : m ≠ []) (before before' : List Char) :
    startsWord (m.reverse ++ before) = startsWord (m.reverse ++ before') := by
  obtain ⟨c, cs, hcons⟩ := exists_cons_of_ne_nil (reverse_ne_nil_iff.2 hm)
  rw [hcons]
  rfl

lemma isNameChar_of_isNamePart (h : isNamePart c) : isNameChar c := by
  have hall : ∀ n < 0x80, isNamePart (Char.ofNat n) → isNameChar (Char.ofNat n) := by
    decide
  exact ascii_induction (P := fun c => isNamePart c → isNameChar c) hall
    (isNamePart_ascii h) h

lemma takeWhile_column (hname : ∀ c ∈ name, isNamePart c) (hs : stops s) :
    (name ++ s).takeWhile isNameChar = name := by
  refine takeWhile_run (fun c hc => isNameChar_of_isNamePart (hname c hc)) ?_
  cases s with
  | nil => rfl
  | cons c s =>
    exact endsHole_cases (P := fun c => isNameChar c = false) (by decide) (by decide) (by decide)
      (by decide) hs

lemma lead_ne_nil {lead x : List Char} (hlead : lead.length = 2) : lead ++ x ≠ [] := by
  rw [Ne, ← length_eq_zero_iff, length_append]
  omega

namespace Aliased

/-- Dropping references in quotation marks leaves the texts related. -/
theorem dropForm_quoted (hf : f.Inside) {q : Char} (hquote : f.quote = some q)
    (hq : isNamePart q = false) {fresh : Bool} {s t before before' : List Char}
    (h : Aliased fresh s t) (hbefore : startsWord before = startsWord before') :
    Aliased fresh (dropForm f before s) (dropForm f before' t) := by
  -- a reference takes several characters at once, so the induction is on the length
  induction hn : s.length using Nat.strong_induction_on generalizing fresh s t before before' with
  | _ n ih =>
    cases h with
    | nil =>
      rw [dropForm_nil, dropForm_nil]
      exact .nil fresh
    | @keep _ c s t h =>
      obtain ⟨hsame, hfound⟩ := h.reference? hf hbefore
      cases hs : AliasScope.reference? ['o'] f before (c :: s) with
      | none =>
        rw [dropForm_kept hs, dropForm_kept (hsame ▸ hs)]
        exact .keep fresh c (ih s.length (by rw [← hn]; simp) h rfl rfl)
      | some column =>
        obtain ⟨lead, s', t', hlead, hs', ht', hrest⟩ := hfound column hs
        have ht := hsame.symm.trans hs
        rw [hs'] at hs hn ⊢
        rw [ht'] at ht ⊢
        rw [dropForm_found hlead hs, dropForm_found hlead ht]
        refine (ih s'.length ?_ hrest (startsWord_reverse (lead_ne_nil hlead) _ _) rfl).append _
        rw [← hn, length_append, length_append]
        omega
    | @column name s t hname hs h =>
      obtain ⟨c, name, rfl⟩ := exists_cons_of_ne_nil hname.1
      -- a column name does not begin with a quotation mark
      have hfirst :
          AliasScope.reference? ['o'] f before' ('o' :: '.' :: (c :: name ++ t)) = none := by
        have hcolumn : f.column? (c :: name ++ t) = none := by
          have hne : c ≠ q := by
            rintro rfl
            rw [hname.2 c (mem_cons_self ..)] at hq
            cases hq
          rw [cons_append, Form.column?_quoted hquote, if_neg fun h => hne h.1]
        unfold AliasScope.reference?
        split
        · exact hcolumn
        · rfl
      have ht : stops t := by
        rw [stops, ← h.head?_eq]
        exact hs
      rw [dropForm_kept hfirst, dropForm_kept (reference?_of_fold (by decide) _ _),
        dropForm_name hname.2 hs, dropForm_name hname.2 ht]
      refine .column hname (stops_dropForm hs _) (ih s.length ?_ h ?_ rfl)
      · rw [← hn, length_append, length_cons]
        omega
      · exact startsWord_reverse hname.1 _ _

/-- Dropping plain references makes the texts equal. -/
theorem dropForm_plain (hf : f.Inside) (hquote : f.quote = none) (hholds : f.holds = isNameChar)
    (hstarts : f.starts = isNameChar) {fresh : Bool} {s t before before' : List Char}
    (h : Aliased fresh s t) (hbefore : startsWord before = startsWord before')
    (hfresh : fresh → startsWord before' = false) : dropForm f before s = dropForm f before' t := by
  induction hn : s.length using Nat.strong_induction_on generalizing fresh s t before before' with
  | _ n ih =>
    cases h with
    | nil => rw [dropForm_nil, dropForm_nil]
    | @keep _ c s t h =>
      obtain ⟨hsame, hfound⟩ := h.reference? hf hbefore
      cases hs : AliasScope.reference? ['o'] f before (c :: s) with
      | none =>
        rw [dropForm_kept hs, dropForm_kept (hsame ▸ hs)]
        refine congrArg (c :: ·) (ih s.length (by rw [← hn]; simp) h rfl (fun hopens => ?_) rfl)
        by_contra hword
        rw [opensHole_of_isWord (Bool.eq_true_of_not_eq_false hword)] at hopens
        cases hopens
      | some column =>
        obtain ⟨lead, s', t', hlead, hs', ht', hrest⟩ := hfound column hs
        have ht := hsame.symm.trans hs
        rw [hs'] at hs hn ⊢
        rw [ht'] at ht ⊢
        rw [dropForm_found hlead hs, dropForm_found hlead ht]
        refine congrArg (f.write column ++ ·) (ih s'.length ?_ hrest
          (startsWord_reverse (lead_ne_nil hlead) _ _) (fun hfalse => by cases hfalse) rfl)
        rw [← hn, length_append, length_append]
        omega
    | @column name s t hname hs h =>
      have ht : stops t := by
        rw [stops, ← h.head?_eq]
        exact hs
      have hwrite : f.write name = name := by rw [Form.write, hquote]
      -- the alias that was put in is found
      have hfound : AliasScope.reference? ['o'] f before' (['o', '.'] ++ f.write name ++ t) =
          some name := by
        have hboundary : wordBoundary before' ('o' :: '.' :: (name ++ t)) := by
          rw [wordBoundary, hfresh rfl]
          rfl
        have hdrop : dropFolded? (['o'] ++ ['.']) ('o' :: '.' :: (name ++ t)) = some (name ++ t) :=
          rfl
        have hcolumn : f.column? (name ++ t) = some name := by
          rw [Form.column?_plain hquote, hholds, hstarts, takeWhile_column hname.2 ht]
          obtain ⟨c, name, rfl⟩ := exists_cons_of_ne_nil hname.1
          exact if_pos (isNameChar_of_isNamePart (hname.2 c (mem_cons_self ..)))
        rw [hwrite]
        change AliasScope.reference? ['o'] f before' ('o' :: '.' :: (name ++ t)) = some name
        rw [AliasScope.reference?, if_pos hboundary, hdrop, Option.bind_some, hcolumn]
      have hdropped : dropForm f before' (['o', '.'] ++ f.write name ++ t) = _ :=
        dropForm_found rfl hfound
      rw [hwrite] at hdropped
      change dropForm f before (name ++ s) = dropForm f before' (['o', '.'] ++ name ++ t)
      rw [hdropped, dropForm_name hname.2 hs]
      refine congrArg (name ++ ·) (ih s.length ?_ h ?_ (fun hfalse => by cases hfalse) rfl)
      · have hpos := length_pos_iff.2 hname.1
        rw [← hn, length_append]
        omega
      · rw [reverse_append, append_assoc]
        exact startsWord_reverse hname.1 _ _

end Aliased

lemma writeColumn_single (scope : AliasScope) (f : Form) :
    writeColumn [scope] scope f = f.write := by
  funext column
  have hambiguous : isAmbiguous [scope] (Partition.normalized column) = false := by
    have hcount :
        List.countP (fun s => s.columns.contains (Partition.normalized column)) [scope] ≤ 1 :=
      countP_le_length
    exact decide_eq_false (by omega)
  rw [writeColumn, hambiguous]
  rfl

/-- Dropping aliases makes clauses equal that differ in the alias of the only source. -/
theorem dropFromClause_aliased {scope : AliasScope} (hscope : scope.aliasName = primaryAlias)
    {a b : String} (h : Aliased true a.toList b.toList) :
    dropFromClause [scope] a = dropFromClause [scope] b := by
  have hname : ∀ c, isNameChar c → opensHole c = false := by
    intro c hc
    by_contra hopens
    have hnot : isNameChar c = false :=
      opensHole_cases (P := fun c => isNameChar c = false) (by decide) (by decide) (by decide)
        (Bool.eq_true_of_not_eq_false hopens)
    rw [hc] at hnot
    cases hnot
  have hquoted : ∀ q, opensHole q = false → (nameQuoted q).Inside := by
    intro q hq
    exact ⟨hname, fun q' hq' => Option.some.inj hq' ▸ hq⟩
  have hclause : ∀ clause : String, dropFromClause [scope] clause =
      String.ofList (dropForm ⟨none, isNameChar, isNameChar⟩ [] (dropForm (nameQuoted '"') []
        (dropForm (nameQuoted '\x60') [] clause.toList))) := by
    intro clause
    unfold dropFromClause clauseForms
    simp only [foldl_cons, foldl_nil, writeColumn_single, hscope]
    rfl
  have hpass : ∀ q s t, opensHole q = false → isNamePart q = false → Aliased true s t →
      Aliased true (dropForm (nameQuoted q) [] s) (dropForm (nameQuoted q) [] t) :=
    fun q s t hopens hpart hst => hst.dropForm_quoted (hquoted q hopens) rfl hpart rfl
  have htick := hpass '\x60' _ _ (by decide) (by decide) h
  have hdouble := hpass '"' _ _ (by decide) (by decide) htick
  rw [hclause, hclause]
  have hplain : (⟨none, isNameChar, isNameChar⟩ : Form).Inside := ⟨hname, fun q hq => by cases hq⟩
  exact congrArg String.ofList (hdouble.dropForm_plain hplain rfl rfl rfl rfl fun _ => rfl)

end

/-- Dropping aliases makes parts equal that differ in the alias of the only source. -/
lemma dropFromClause_aliasedPart {scope : AliasScope} (hscope : scope.aliasName = primaryAlias)
    {a b : String} (h : OnTexts AliasedPart a b) :
    dropFromClause [scope] a = dropFromClause [scope] b := by
  have haliased := h [] [] rfl (.nil false)
  rw [append_nil, append_nil] at haliased
  exact dropFromClause_aliased hscope haliased

end StreamQuery
