import StreamQuery.Proofs.AliasInserted
import StreamQuery.Proofs.SplitTexts
import StreamQuery.Proofs.WindowPlace

/-!
# Dropping the aliases of a join at once

The aliases of a join are dropped in six passes, one for each source and each form of a reference,
and every pass but the first reads a text that earlier passes have changed.  `Dealiased` says what
the passes are meant to do together.

A later pass finds the references of the clause (`IsReference.found`) and no others
(`IsReference.of_found`), unless a reference has a full stop behind it, or is all that stands in the
quotation marks of a later one.  So one more pass keeps the relation (`Dealiased.comp`), and
`dropFromClause_at_once` is the statement about all six.
-/

namespace StreamQuery.AliasScope

open Text List

variable {c : Char} {f : Form} {aliasName : String} {before ref after s t : List Char}
  {left right : AliasScope} {ps : List (AliasScope × Form)}

/-! ## Runs of name characters -/

/-- A character of a name is one of a word. -/
lemma isWord_of_isNameChar (h : isNameChar c) : isWord c := by
  have hascii : ∀ n < 0x80, isNameChar (Char.ofNat n) → isWord (Char.ofNat n) := by
    decide
  have hcase : c.toNat < 0x80 ∨ c = Char.ofNat 0x17F ∨ c = Char.ofNat 0x212A := by
    unfold isNameChar isNameStart isLetterFolded at h
    simp only [Bool.or_eq_true, Bool.and_eq_true, decide_eq_true_eq, beq_iff_eq] at h
    rcases h with (⟨hfold, halpha⟩ | rfl) | hdigit
    · refine ascii_of_fold rfl (fun hzero => ?_) hfold
      rw [← Char.ofNat_toNat (fold c), hzero] at halpha
      exact absurd halpha (by decide)
    · exact .inl (by decide)
    · exact .inl (isNamePart_ascii (by simp [isNamePart, Char.isAlphanum, hdigit]))
  rcases hcase with hc | rfl | rfl
  · exact ascii_induction (P := fun c => isNameChar c → isWord c) hascii hc h
  · decide +kernel
  · decide +kernel

/-- A text begins with one run of characters of a kind. -/
lemma run_unique {p : Char → Bool} {m w x y : List Char} (h : m ++ x = w ++ y)
    (hm : ∀ c ∈ m, p c) (hw : ∀ c ∈ w, p c) (hx : x.head?.any p = false)
    (hy : y.head?.any p = false) : m = w ∧ x = y := by
  have htake := congrArg (takeWhile p) h
  rw [takeWhile_run hm hx, takeWhile_run hw hy] at htake
  subst htake
  exact ⟨rfl, append_cancel_left h⟩

/-! ## References -/

/-- A reference to a column through an alias: the alias as a whole word, ignoring case, a full stop,
and the column in its quotation marks.  A plain column is as long as it can be. -/
structure IsReference (aliasName : String) (f : Form) (before ref column after : List Char) :
    Prop where
  boundary : startsWord before = false
  text : ∃ a, ref = a ++ '.' :: f.write column ∧ SameFolded a aliasName.toList
  column_ne : column ≠ []
  holds : ∀ c ∈ column, isNameChar c = true
  /-- A plain column is not continued. -/
  longest : f.quote = none → after.head?.any isNameChar = false

/-- The form of a plain column. -/
def plainForm : Form :=
  ⟨none, isNameChar, isNameChar⟩

/-- A form holds characters of names; its quotation mark is no word character. -/
lemma clauseForms_spec (hf : f ∈ clauseForms) :
    f.starts = isNameChar ∧ f.holds = isNameChar ∧
      (f.quote = none ∧ f = plainForm ∨ ∃ q, f.quote = some q ∧ (q = '\x60' ∨ q = '"')) := by
  simp only [clauseForms, mem_cons, not_mem_nil, or_false] at hf
  rcases hf with rfl | rfl | rfl
  · exact ⟨rfl, rfl, .inr ⟨_, rfl, .inl rfl⟩⟩
  · exact ⟨rfl, rfl, .inr ⟨_, rfl, .inr rfl⟩⟩
  · exact ⟨rfl, rfl, .inl ⟨rfl, rfl⟩⟩

/-- A quotation mark is no part of a word, and no full stop. -/
lemma quote_apart {q : Char} (hq : q = '\x60' ∨ q = '"') : isWord q = false ∧ q ≠ '.' := by
  rcases hq with rfl | rfl
  · exact ⟨by decide, by decide⟩
  · exact ⟨by decide, by decide⟩

variable {column : List Char}

/-- Columns are found in a form where they are. -/
lemma column?_eq_some_iff (hf : f ∈ clauseForms) {rest : List Char} :
    f.column? rest = some column ↔ column ≠ [] ∧ (∀ c ∈ column, isNameChar c) ∧
      ∃ after, rest = f.write column ++ after ∧
        (f.quote = none → after.head?.any isNameChar = false) := by
  obtain ⟨hstarts, hholds, hplain | ⟨q, hquote, hq⟩⟩ := clauseForms_spec hf
  · obtain ⟨hquote, -⟩ := hplain
    have hwrite : f.write column = column := by
      unfold Form.write
      rw [hquote]
    rw [Form.column?_plain hquote, hstarts, hholds, hwrite]
    constructor
    · intro h
      split at h
      · next hhead =>
        cases h
        refine ⟨?_, fun c hc => mem_takeWhile_imp hc, rest.dropWhile isNameChar,
          (takeWhile_append_dropWhile ..).symm, fun _ => ?_⟩
        · intro hnil
          rw [hnil] at hhead
          cases hhead
        · exact head?_dropWhile_any isNameChar rest
      · cases h
    · rintro ⟨hne, hcolumn, after, rfl, hafter⟩
      have htake := takeWhile_run hcolumn (hafter hquote)
      rw [htake, if_pos]
      obtain ⟨c, column, rfl⟩ := exists_cons_of_ne_nil hne
      exact hcolumn c mem_cons_self
  · have hwrite : f.write column = q :: column ++ [q] := by
      unfold Form.write
      rw [hquote]
    have hstop : isNameChar q = false := by
      rcases hq with rfl | rfl <;> decide
    constructor
    · intro h
      obtain _ | ⟨first, inner⟩ := rest
      · unfold Form.column? at h
        rw [hquote] at h
        cases h
      rw [Form.column?_quoted hquote, hstarts, hholds] at h
      split at h
      · next hcolumn =>
        cases h
        obtain ⟨rfl, hhead, hend⟩ := hcolumn
        obtain ⟨after, hafter⟩ := head?_eq_some_iff.1 hend
        refine ⟨?_, fun c hc => mem_takeWhile_imp hc, after, ?_, fun hnone => ?_⟩
        · intro hnil
          rw [hnil] at hhead
          cases hhead
        · rw [hwrite]
          nth_rewrite 1 [← takeWhile_append_dropWhile (p := isNameChar) (l := inner)]
          rw [hafter]
          simp
        · rw [hquote] at hnone
          cases hnone
      · cases h
    · rintro ⟨hne, hcolumn, after, rfl, -⟩
      have htake : (column ++ q :: after).takeWhile isNameChar = column :=
        takeWhile_run hcolumn hstop
      have hdrop : (column ++ q :: after).dropWhile isNameChar = q :: after :=
        dropWhile_run hcolumn hstop
      have htext : f.write column ++ after = q :: (column ++ q :: after) := by
        rw [hwrite]
        simp
      rw [htext, Form.column?_quoted hquote, hstarts, hholds, htake, hdrop, if_pos]
      obtain ⟨c, column, rfl⟩ := exists_cons_of_ne_nil hne
      exact ⟨rfl, hcolumn c mem_cons_self, rfl⟩

/-- An alias of one letter. -/
structure IsShort (aliasName : String) (a : Char) : Prop where
  toList : aliasName.toList = [a]
  letter : a = 'o' ∨ a = 'i'

/-- What equals a short alias up to case is in a name. -/
lemma IsShort.isNameChar {a : Char} (h : IsShort aliasName a) (hc : fold c = fold a) :
    isNameChar c := by
  unfold Text.isNameChar isNameStart isLetterFolded
  rw [hc]
  rcases h.letter with rfl | rfl
  · rfl
  · rfl

/-- Of what stands before a reference, only whether it ends in a word matters. -/
lemma IsReference.congr {before' : List Char} (h : IsReference aliasName f before ref column after)
    (hbefore : startsWord before' = startsWord before) :
    IsReference aliasName f before' ref column after :=
  ⟨hbefore.trans h.boundary, h.text, h.column_ne, h.holds, h.longest⟩

/-- A reference is not empty. -/
lemma IsReference.ne_nil (h : IsReference aliasName f before ref column after) : ref ≠ [] := by
  obtain ⟨a, rfl, -⟩ := h.text
  simp

/-- Behind a reference there is less text. -/
lemma IsReference.length_lt (h : IsReference aliasName f before ref column after) :
    after.length < (ref ++ after).length := by
  have hlength := length_pos_iff.2 h.ne_nil
  rw [length_append]
  omega

/-- A reference is as long as its parts. -/
lemma IsReference.length_eq (h : IsReference aliasName f before ref column after) :
    aliasName.toList.length + 1 + (f.write column).length = ref.length := by
  obtain ⟨m, rfl, hm⟩ := h.text
  rw [length_append, length_cons, hm.length_eq]
  omega

section

variable {aliasName : String} {a : Char} (halias : IsShort aliasName a) {f : Form}
  {before ref column after : List Char}

include halias

/-- A reference through a short alias is one character, a dot and the column. -/
lemma IsReference.short (h : IsReference aliasName f before ref column after) :
    ∃ x, ref = x :: '.' :: f.write column ∧ fold x = fold a := by
  obtain ⟨m, rfl, hm⟩ := h.text
  rw [halias.toList] at hm
  obtain _ | ⟨x, _ | ⟨y, m⟩⟩ := m
  · cases hm.length_eq
  · exact ⟨x, rfl, (cons.inj hm).1⟩
  · cases hm.length_eq

/-- References are found where they are. -/
lemma reference?_eq_some_iff (hf : f ∈ clauseForms) {s : List Char} :
    reference? aliasName.toList f before s = some column ↔
      ∃ ref after, s = ref ++ after ∧ IsReference aliasName f before ref column after := by
  have hboundary : ∀ {x : Char} {rest : List Char}, fold x = fold a →
      wordBoundary before (x :: rest) = !startsWord before := by
    intro x rest hx
    have hstart : startsWord (x :: rest) := isWord_of_isNameChar (halias.isNameChar hx)
    unfold wordBoundary
    rw [hstart]
    cases startsWord before <;> rfl
  constructor
  · intro h
    unfold reference? at h
    split at h
    · next hword =>
      obtain ⟨behind, hbehind, hcolumn⟩ := Option.bind_eq_some_iff.1 h
      obtain ⟨m, rfl, hm⟩ := dropFolded?_eq_some_iff.1 hbehind
      rw [halias.toList] at hm
      obtain _ | ⟨x, _ | ⟨d, _ | ⟨e, m⟩⟩⟩ := m
      · cases hm.length_eq
      · cases hm.length_eq
      · obtain ⟨hx, hrest⟩ := cons.inj hm
        obtain rfl := eq_dot_of_fold (cons.inj hrest).1
        obtain ⟨hne, hholds, after, rfl, hlongest⟩ := (column?_eq_some_iff hf).1 hcolumn
        refine ⟨x :: '.' :: f.write column, after, rfl, ?_, ⟨[x], rfl, ?_⟩, hne, hholds, hlongest⟩
        · have hfree : wordBoundary before (x :: '.' :: (f.write column ++ after)) := hword
          rwa [hboundary hx, Bool.not_eq_true'] at hfree
        · rw [halias.toList]
          exact congrArg (· :: []) hx
      · cases hm.length_eq
    · cases h
  · rintro ⟨ref, after, rfl, h⟩
    obtain ⟨x, rfl, hx⟩ := h.short halias
    have hdrop : dropFolded? (aliasName.toList ++ ['.']) (x :: '.' :: f.write column ++ after) =
        some (f.write column ++ after) := by
      refine dropFolded?_eq_some_iff.2 ⟨[x, '.'], rfl, ?_⟩
      rw [halias.toList]
      exact congrArg (· :: [fold '.']) hx
    unfold reference?
    rw [if_pos, hdrop]
    · exact (column?_eq_some_iff hf).2 ⟨h.column_ne, h.holds, after, rfl, h.longest⟩
    · rw [cons_append, hboundary hx, h.boundary]
      rfl

end

/-! ## The references of a join -/

/-- The name of a source: an identifier that is not read as an alias. -/
structure IsSourceName (name : String) : Prop where
  ne_nil : name.toList ≠ []
  isNamePart : ∀ c ∈ name.toList, isNamePart c = true
  apart : ∀ aliasName ∈ [primaryAlias, joinAlias], ¬SameFolded name.toList aliasName.toList

/-- The two sources of a join. -/
structure IsJoin (left right : AliasScope) : Prop where
  left_alias : left.aliasName = primaryAlias
  right_alias : right.aliasName = joinAlias
  left_source : IsSourceName left.source
  right_source : IsSourceName right.source

/-- The passes over a clause of a join, in their order. -/
def passes (left right : AliasScope) : List (AliasScope × Form) :=
  [left, right].flatMap fun scope => clauseForms.map fun f => (scope, f)

/-- There is a pass for each source and form. -/
lemma mem_passes {p : AliasScope × Form} :
    p ∈ passes left right ↔ (p.1 = left ∨ p.1 = right) ∧ p.2 ∈ clauseForms := by
  unfold passes
  simp only [mem_flatMap, mem_cons, not_mem_nil, or_false, mem_map]
  constructor
  · rintro ⟨scope, hscope, f, hf, rfl⟩
    exact ⟨hscope, hf⟩
  · rintro ⟨hscope, hf⟩
    exact ⟨p.1, hscope, p.2, hf, rfl⟩

/-- Both sources of a join have the column. -/
def Shared (left right : AliasScope) (column : List Char) : Prop :=
  upper (String.ofList column) ∈ left.columns ∧ upper (String.ofList column) ∈ right.columns

instance (left right : AliasScope) (column : List Char) : Decidable (Shared left right column) :=
  inferInstanceAs (Decidable (_ ∧ _))

/-- The column for a reference, behind its source if both sources have it. -/
def rewritten (left right : AliasScope) (p : AliasScope × Form) (column : List Char) : List Char :=
  if Shared left right column then p.1.source.toList ++ '.' :: p.2.write column
  else p.2.write column

/-- No reference of one of the passes stands at a position. -/
def NoReference (ps : List (AliasScope × Form)) (before s : List Char) : Prop :=
  ∀ p ∈ ps, ∀ ref column after, s = ref ++ after →
    ¬IsReference p.1.aliasName p.2 before ref column after

/-- The second text is the first one, behind `before`, with each reference of the passes written
anew and all else kept. -/
inductive Dealiased (left right : AliasScope) (ps : List (AliasScope × Form)) :
    (before s t : List Char) → Prop
  | nil {before : List Char} : Dealiased left right ps before [] []
  /-- A character at which there is no reference is kept. -/
  | keep {before s t : List Char} {c : Char} (h : NoReference ps before (c :: s))
      (ht : Dealiased left right ps (c :: before) s t) :
      Dealiased left right ps before (c :: s) (c :: t)
  /-- A reference is written anew. -/
  | write {before ref column after t : List Char} {p : AliasScope × Form} (hp : p ∈ ps)
      (h : IsReference p.1.aliasName p.2 before ref column after)
      (ht : Dealiased left right ps (ref.reverse ++ before) after t) :
      Dealiased left right ps before (ref ++ after) (rewritten left right p column ++ t)

/-- What a position can hold. -/
lemma Dealiased.inv (h : Dealiased left right ps before s t) :
    s = [] ∧ t = [] ∨
      (∃ c s' t', s = c :: s' ∧ t = c :: t' ∧ NoReference ps before (c :: s') ∧
        Dealiased left right ps (c :: before) s' t') ∨
      ∃ p ∈ ps, ∃ ref column after t', s = ref ++ after ∧ t = rewritten left right p column ++ t' ∧
        IsReference p.1.aliasName p.2 before ref column after ∧
        Dealiased left right ps (ref.reverse ++ before) after t' := by
  cases h with
  | nil => exact .inl ⟨rfl, rfl⟩
  | keep h ht => exact .inr (.inl ⟨_, _, _, rfl, rfl, h, ht⟩)
  | write hp h ht => exact .inr (.inr ⟨_, hp, _, _, _, _, rfl, rfl, h, ht⟩)

/-- Without passes, a text is kept. -/
lemma Dealiased.refl (left right : AliasScope) (before s : List Char) :
    Dealiased left right [] before s s := by
  induction s generalizing before with
  | nil => exact .nil
  | cons c s ih => exact .keep (fun _ hp => absurd hp not_mem_nil) (ih (c :: before))

/-- Without a reference a character is kept. -/
lemma Dealiased.kept (h : Dealiased left right ps before (c :: s) t)
    (hnone : NoReference ps before (c :: s)) :
    ∃ t', t = c :: t' ∧ Dealiased left right ps (c :: before) s t' := by
  rcases h.inv with ⟨hs, -⟩ | ⟨c, s, t', hs, rfl, -, ht⟩ |
    ⟨p, hp, ref, column, after, t', hs, -, h, -⟩
  · cases hs
  · cases hs
    exact ⟨t', rfl, ht⟩
  · exact absurd h (hnone p hp ref column after hs)

/-- No reference of a clause has a full stop behind it. -/
def Undotted (left right : AliasScope) (clause : List Char) : Prop :=
  ∀ p ∈ passes left right, ∀ lead ref column after, clause = lead ++ (ref ++ after) →
    IsReference p.1.aliasName p.2 lead.reverse ref column after → after.head? ≠ some '.'

/-- A plain reference to the left source is not all that stands in quotation marks behind the alias
of the right source, unless it is written behind the name of its source. -/
def Unnested (left right : AliasScope) (clause : List Char) : Prop :=
  ∀ lead a q ref column after, clause = lead ++ (a ++ '.' :: q :: (ref ++ q :: after)) →
    startsWord lead.reverse = false → SameFolded a right.aliasName.toList →
    (q = '\x60' ∨ q = '"') →
    IsReference left.aliasName plainForm (q :: '.' :: (a.reverse ++ lead.reverse)) ref column
      (q :: after) → Shared left right column

/-- Without a reference a character has been kept. -/
lemma Dealiased.of_kept (h : Dealiased left right ps before s (c :: t))
    (hnone : NoReference ps before s) :
    ∃ s', s = c :: s' ∧ Dealiased left right ps (c :: before) s' t := by
  rcases h.inv with ⟨-, ht⟩ | ⟨c, s', t, rfl, ht, -, h⟩ |
    ⟨p, hp, ref, column, after, t', hs, -, h, -⟩
  · cases ht
  · cases ht
    exact ⟨s', rfl, h⟩
  · exact absurd h (hnone p hp ref column after hs)

/-! ## Inside words -/

section

variable {left right : AliasScope} {ps : List (AliasScope × Form)} {before s t : List Char}

/-- No reference begins inside of a word. -/
lemma noReference_inside (hbefore : startsWord before) : NoReference ps before s := by
  intro p _ ref column after _ h
  rw [h.boundary] at hbefore
  cases hbefore

/-- Inside a word a character is kept. -/
lemma Dealiased.inside (h : Dealiased left right ps before s t) (hbefore : startsWord before) :
    s = [] ∧ t = [] ∨
      ∃ c s' t', s = c :: s' ∧ t = c :: t' ∧ Dealiased left right ps (c :: before) s' t' := by
  rcases h.inv with hnil | ⟨c, s', t', hs, ht, -, h⟩ | ⟨p, hp, ref, column, after, t', hs, -, h, -⟩
  · exact .inl hnil
  · exact .inr ⟨c, s', t', hs, ht, h⟩
  · exact absurd h (noReference_inside hbefore p hp ref column after hs)

/-- Inside of a word, the first character is kept. -/
lemma Dealiased.head?_eq (h : Dealiased left right ps before s t)
    (hbefore : startsWord before) : t.head? = s.head? := by
  obtain ⟨rfl, rfl⟩ | ⟨c, s', t', rfl, rfl, -⟩ := h.inside hbefore
  · rfl
  · rfl

/-- The rest of a word is kept. -/
lemma Dealiased.inside_run {m : List Char} (hm : ∀ c ∈ m, isNameChar c)
    (h : Dealiased left right ps before (m ++ s) t) (hbefore : startsWord before) :
    ∃ t', t = m ++ t' ∧ Dealiased left right ps (m.reverse ++ before) s t' := by
  induction m generalizing before t with
  | nil => exact ⟨t, rfl, h⟩
  | cons c m ih =>
    obtain ⟨t', rfl, hrest⟩ := h.kept (noReference_inside hbefore)
    obtain ⟨u, rfl, hu⟩ := ih (forall_mem_cons.1 hm).2 hrest
      (isWord_of_isNameChar (hm c mem_cons_self))
    refine ⟨u, rfl, ?_⟩
    rwa [reverse_cons, append_assoc]

/-- The rest of a word has been kept. -/
lemma Dealiased.of_inside_run {m : List Char} (hm : ∀ c ∈ m, isNameChar c)
    (h : Dealiased left right ps before s (m ++ t)) (hbefore : startsWord before) :
    ∃ s', s = m ++ s' ∧ Dealiased left right ps (m.reverse ++ before) s' t := by
  induction m generalizing before s with
  | nil => exact ⟨s, rfl, h⟩
  | cons c m ih =>
    obtain ⟨-, ht⟩ | ⟨d, s', t', rfl, ht, h⟩ := h.inside hbefore
    · cases ht
    · cases ht
      obtain ⟨u, rfl, hu⟩ := ih (forall_mem_cons.1 hm).2 h
        (isWord_of_isNameChar (hm c mem_cons_self))
      refine ⟨u, rfl, ?_⟩
      rwa [reverse_cons, append_assoc]

end

/-! ## One pass behind others -/

/-- A column is written in marks or as it is. -/
lemma Form.write_cases (hf : f ∈ clauseForms) (column : List Char) :
    f = plainForm ∧ f.write column = column ∨
      ∃ q, (q = '\x60' ∨ q = '"') ∧ f.quote = some q ∧ f.write column = q :: column ++ [q] := by
  unfold Form.write
  obtain ⟨-, -, ⟨hquote, hplain⟩ | ⟨q, hquote, hq⟩⟩ := clauseForms_spec hf
  · rw [hquote]
    exact .inl ⟨hplain, rfl⟩
  · rw [hquote]
    exact .inr ⟨q, hq, rfl, rfl⟩

/-- A form is known by its quotation mark. -/
lemma Form.eq_of_quote {f' : Form} (hf : f ∈ clauseForms) (hf' : f' ∈ clauseForms)
    (h : f.quote = f'.quote) : f = f' := by
  obtain ⟨hstarts, hholds, -⟩ := clauseForms_spec hf
  obtain ⟨hstarts', hholds', -⟩ := clauseForms_spec hf'
  cases f
  cases f'
  subst h hstarts hholds hstarts' hholds'
  rfl

/-- A quotation mark is no character of a name. -/
lemma isNameChar_quote {q : Char} (hq : q = '\x60' ∨ q = '"') : isNameChar q = false := by
  rcases hq with rfl | rfl
  · decide
  · decide

/-- Behind a run of name characters, there is a word before. -/
lemma startsWord_reverse_run {m : List Char} (hne : m ≠ []) (hm : ∀ c ∈ m, isNameChar c)
    (before : List Char) : startsWord (m.reverse ++ before) := by
  obtain ⟨c, m', hrev⟩ := exists_cons_of_ne_nil (reverse_ne_nil_iff.2 hne)
  rw [hrev]
  exact isWord_of_isNameChar (hm c (mem_reverse.1 (hrev ▸ mem_cons_self)))

/-- A plain reference ends in a word. -/
lemma IsReference.startsWord_reverse (h : IsReference aliasName f before ref column after)
    (hplain : f = plainForm) : startsWord (ref.reverse ++ before) := by
  obtain ⟨a, rfl, -⟩ := h.text
  subst hplain
  have hend := startsWord_reverse_run h.column_ne h.holds ('.' :: (a.reverse ++ before))
  simpa [Form.write, plainForm] using hend

section

variable {left right : AliasScope} (hjoin : IsJoin left right) {ps : List (AliasScope × Form)}
  {before s t : List Char}

variable {m : List Char}

include hjoin

/-- The alias of each pass is short. -/
lemma IsJoin.isShort {p : AliasScope × Form} (hp : p ∈ passes left right) :
    ∃ a, IsShort p.1.aliasName a := by
  rcases (mem_passes.1 hp).1 with h | h
  · rw [h, hjoin.left_alias]
    exact ⟨'o', rfl, .inl rfl⟩
  · rw [h, hjoin.right_alias]
    exact ⟨'i', rfl, .inr rfl⟩

/-- The source of each pass has a name. -/
lemma IsJoin.isSourceName {p : AliasScope × Form} (hp : p ∈ passes left right) :
    IsSourceName p.1.source := by
  rcases (mem_passes.1 hp).1 with h | h
  · rw [h]
    exact hjoin.left_source
  · rw [h]
    exact hjoin.right_source

/-- A reference of a join begins with a letter and a full stop. -/
lemma IsJoin.reference_text {p : AliasScope × Form} (hp : p ∈ passes left right)
    {ref column after : List Char} (h : IsReference p.1.aliasName p.2 before ref column after) :
    ∃ x, ref = x :: '.' :: p.2.write column ∧ isNameChar x ∧
      SameFolded [x] p.1.aliasName.toList := by
  obtain ⟨a, ha⟩ := hjoin.isShort hp
  obtain ⟨x, hx, hfold⟩ := h.short ha
  refine ⟨x, hx, ha.isNameChar hfold, ?_⟩
  rw [ha.toList]
  exact congrArg (· :: []) hfold

/-- A reference begins with a character of a name. -/
lemma noReference_apart (hps : ps ⊆ passes left right) {c : Char} (hc : isNameChar c = false) :
    NoReference ps before (c :: s) := by
  intro p hp ref column after hs h
  obtain ⟨x, rfl, hx, -⟩ := hjoin.reference_text (hps hp) h
  cases hs
  rw [hx] at hc
  cases hc

/-- No reference begins with a run that is not an alias before a full stop. -/
lemma noReference_run (hps : ps ⊆ passes left right) (hne : m ≠ []) (hm : ∀ c ∈ m, isNameChar c)
    (halias : ∀ p ∈ ps, SameFolded m p.1.aliasName.toList → s.head? ≠ some '.') :
    NoReference ps before (m ++ s) := by
  intro p hp ref column after hs h
  obtain ⟨x, rfl, -, hfold⟩ := hjoin.reference_text (hps hp) h
  obtain ⟨c, m, rfl⟩ := exists_cons_of_ne_nil hne
  obtain ⟨rfl, htail⟩ := cons.inj hs
  obtain _ | ⟨d, m⟩ := m
  · refine halias p hp hfold ?_
    exact (congrArg head? htail : s.head? = _)
  · obtain ⟨rfl, -⟩ := cons.inj htail
    exact absurd (hm '.' (by simp)) (by decide)

/-- A word with no full stop behind it is kept. -/
lemma Dealiased.run (hps : ps ⊆ passes left right) (hne : m ≠ []) (hm : ∀ c ∈ m, isNameChar c)
    (halias : ∀ p ∈ ps, SameFolded m p.1.aliasName.toList → s.head? ≠ some '.')
    (h : Dealiased left right ps before (m ++ s) t) :
    ∃ t', t = m ++ t' ∧ Dealiased left right ps (m.reverse ++ before) s t' := by
  have hnone : NoReference ps before (m ++ s) := noReference_run hjoin hps hne hm halias
  obtain ⟨c, m, rfl⟩ := exists_cons_of_ne_nil hne
  obtain ⟨t', rfl, hrest⟩ := h.kept hnone
  obtain ⟨u, rfl, hu⟩ := hrest.inside_run (forall_mem_cons.1 hm).2
    (isWord_of_isNameChar (hm c mem_cons_self))
  refine ⟨u, rfl, ?_⟩
  rwa [reverse_cons, append_assoc]

/-- A column in its form is kept. -/
lemma Dealiased.form (hps : ps ⊆ passes left right) {f : Form} (hf : f ∈ clauseForms)
    (hne : column ≠ []) (hcolumn : ∀ c ∈ column, isNameChar c)
    (hdot : f = plainForm → s.head? ≠ some '.')
    (h : Dealiased left right ps before (f.write column ++ s) t) :
    ∃ t', t = f.write column ++ t' ∧
      Dealiased left right ps ((f.write column).reverse ++ before) s t' := by
  obtain ⟨hplain, hwrite⟩ | ⟨q, hq, -, hwrite⟩ := f.write_cases hf column
  · rw [hwrite] at h ⊢
    exact h.run hjoin hps hne hcolumn fun _ _ _ => hdot hplain
  · have hstop := isNameChar_quote hq
    have htext : ∀ u : List Char, f.write column ++ u = q :: (column ++ q :: u) := by
      intro u
      rw [hwrite]
      simp
    rw [htext] at h
    obtain ⟨t₁, rfl, h₁⟩ := h.kept (noReference_apart hjoin hps hstop)
    have hhead : (q :: s).head? ≠ some '.' := fun h => (quote_apart hq).2 (Option.some.inj h)
    obtain ⟨t₂, rfl, h₂⟩ := h₁.run hjoin hps hne hcolumn fun _ _ _ => hhead
    obtain ⟨t₃, rfl, h₃⟩ := h₂.kept (noReference_apart hjoin hps hstop)
    refine ⟨t₃, (htext t₃).symm, ?_⟩
    rw [hwrite]
    simpa using h₃

/-- What has been written is kept. -/
lemma Dealiased.rewritten (hps : ps ⊆ passes left right) {p : AliasScope × Form}
    (hp : p ∈ passes left right) (hne : column ≠ [])
    (hcolumn : ∀ c ∈ column, isNameChar c) (hdot : p.2 = plainForm → s.head? ≠ some '.')
    (h : Dealiased left right ps before (rewritten left right p column ++ s) t) :
    ∃ t', t = rewritten left right p column ++ t' ∧
      Dealiased left right ps ((rewritten left right p column).reverse ++ before) s t' := by
  have hform := (mem_passes.1 hp).2
  have hname := hjoin.isSourceName hp
  unfold AliasScope.rewritten at h ⊢
  split at h
  · next hshared =>
    rw [if_pos hshared]
    rw [append_assoc, cons_append] at h
    obtain ⟨t₁, rfl, h₁⟩ := h.run hjoin hps hname.ne_nil
      (fun c hc => isNameChar_of_isNamePart (hname.isNamePart c hc)) (fun p' hp' hsame => by
        refine absurd hsame (hname.apart _ ?_)
        rcases (mem_passes.1 (hps hp')).1 with h' | h'
        · rw [h', hjoin.left_alias]
          simp
        · rw [h', hjoin.right_alias]
          simp)
    obtain ⟨t₂, rfl, h₂⟩ := h₁.kept (noReference_apart hjoin hps (by decide))
    obtain ⟨t₃, rfl, h₃⟩ := h₂.form hjoin hps hform hne hcolumn hdot
    refine ⟨t₃, by simp, ?_⟩
    simpa using h₃
  · next hshared =>
    rw [if_neg hshared]
    exact h.form hjoin hps hform hne hcolumn hdot

/-! ## What a later pass finds -/

variable {clause : List Char} (hdot : Undotted left right clause) {p : AliasScope × Form}
  {ref column after : List Char}

include hdot

/-- No reference begins behind an alias and its full stop. -/
lemma noReference_behind (hps : ps ⊆ passes left right) (hp : p ∈ passes left right) {x : Char}
    (hfold : SameFolded [x] p.1.aliasName.toList) (hbefore : startsWord before = false)
    (hclause : clause = before.reverse ++ x :: '.' :: s) :
    NoReference ps ('.' :: x :: before) s := by
  intro p' hp' ref column after hs h
  obtain ⟨y, rfl, hy, -⟩ := hjoin.reference_text (hps hp') h
  -- the letter of the second alias would be a column with a full stop behind it
  have houter : IsReference p.1.aliasName plainForm before.reverse.reverse [x, '.', y] [y]
      ('.' :: (p'.2.write column ++ after)) := by
    refine ⟨?_, ⟨[x], rfl, hfold⟩, by simp, ?_, fun _ => rfl⟩
    · rwa [reverse_reverse]
    · intro c hc
      rwa [mem_singleton.1 hc]
  refine hdot (p.1, plainForm) (mem_passes.2 ⟨(mem_passes.1 hp).1, ?_⟩) _ _ _ _ ?_ houter rfl
  · simp [clauseForms, plainForm]
  · rw [hclause, hs]
    simp

/-- A later pass finds a reference of the clause. -/
lemma IsReference.found (hps : ps ⊆ passes left right) (hp : p ∈ passes left right)
    (hclause : clause = before.reverse ++ (ref ++ after))
    (h : IsReference p.1.aliasName p.2 before ref column after)
    (hnone : NoReference ps before (ref ++ after))
    (ht : Dealiased left right ps before (ref ++ after) t) :
    ∃ after', t = ref ++ after' ∧ IsReference p.1.aliasName p.2 before ref column after' := by
  have hstop : after.head? ≠ some '.' :=
    hdot p hp _ _ _ _ hclause (h.congr (by rw [reverse_reverse]))
  obtain ⟨x, rfl, hx, -⟩ := hjoin.reference_text hp h
  obtain ⟨t₁, rfl, h₁⟩ := ht.kept hnone
  obtain ⟨t₂, rfl, h₂⟩ := h₁.kept (noReference_inside (isWord_of_isNameChar hx))
  obtain ⟨t₃, rfl, h₃⟩ := h₂.form hjoin hps (mem_passes.1 hp).2 h.column_ne h.holds
    fun _ => hstop
  refine ⟨t₃, rfl, h.boundary, h.text, h.column_ne, h.holds, fun hplain => ?_⟩
  have hwrite : p.2.write column = column := by
    unfold Form.write
    rw [hplain]
  rw [hwrite] at h₃
  rw [h₃.head?_eq (startsWord_reverse_run h.column_ne h.holds _)]
  exact h.longest hplain

omit hdot in
/-- Where a quoted word has been written, a plain reference stood alone. -/
lemma unshared_of_quoted (hp : p ∈ passes left right)
    (h : IsReference p.1.aliasName p.2 before ref column after)
    (ht : Dealiased left right ps (ref.reverse ++ before) after t) {u : List Char} {q : Char}
    (hne : m ≠ []) (hm : ∀ c ∈ m, isNameChar c) (hq : q = '\x60' ∨ q = '"')
    (htext : m ++ q :: u = rewritten left right p column ++ t) :
    p.2 = plainForm ∧ ¬Shared left right column ∧ after.head? = some q := by
  have hname := hjoin.isSourceName hp
  have hstop : (q :: u).head?.any isNameChar = false := isNameChar_quote hq
  unfold rewritten at htext
  split at htext
  · rw [append_assoc] at htext
    obtain ⟨-, hrest⟩ := run_unique htext hm
      (fun c hc => isNameChar_of_isNamePart (hname.isNamePart c hc)) hstop rfl
    exact absurd (cons.inj hrest).1 (quote_apart hq).2
  · next hshared =>
    obtain ⟨hplain, hwrite⟩ | ⟨q', hq', -, hwrite⟩ := p.2.write_cases (mem_passes.1 hp).2 column
    · rw [hwrite] at htext
      have hhead : t.head? = after.head? := ht.head?_eq (h.startsWord_reverse hplain)
      have hend : t.head?.any isNameChar = false := by
        rw [hhead]
        exact h.longest (by rw [hplain]; rfl)
      obtain ⟨-, rfl⟩ := run_unique htext hm h.holds hstop hend
      exact ⟨hplain, hshared, hhead.symm⟩
    · rw [hwrite] at htext
      obtain ⟨c, m, rfl⟩ := exists_cons_of_ne_nil hne
      obtain ⟨rfl, -⟩ := cons.inj htext
      have hc := hm c mem_cons_self
      rw [isNameChar_quote hq'] at hc
      cases hc

/-- What a later pass finds is a reference of the clause. -/
lemma IsReference.of_found (hnest : Unnested left right clause) (hps : ps ⊆ passes left right)
    (hp : p ∈ passes left right)
    (horder : ∀ p' ∈ ps, p'.2 = plainForm → p.2 ≠ plainForm → p'.1 = left ∧ p.1 = right)
    (hclause : clause = before.reverse ++ s)
    (h : IsReference p.1.aliasName p.2 before ref column after) (hnone : NoReference ps before s)
    (hs : Dealiased left right ps before s (ref ++ after)) :
    ∃ after', s = ref ++ after' ∧ IsReference p.1.aliasName p.2 before ref column after' ∧
      Dealiased left right ps (ref.reverse ++ before) after' after := by
  obtain ⟨x, rfl, hx, hfold⟩ := hjoin.reference_text hp h
  rw [cons_append, cons_append] at hs
  obtain ⟨s₁, rfl, h₁⟩ := hs.of_kept hnone
  obtain ⟨s₂, rfl, h₂⟩ := h₁.of_kept (noReference_inside (isWord_of_isNameChar hx))
  have hbehind : NoReference ps ('.' :: x :: before) s₂ :=
    noReference_behind hjoin hdot hps hp hfold h.boundary hclause
  obtain ⟨c, column, rfl⟩ := exists_cons_of_ne_nil h.column_ne
  have hc : startsWord (c :: '.' :: x :: before) :=
    isWord_of_isNameChar (h.holds c mem_cons_self)
  have hcolumn : ∀ d ∈ column, isNameChar d :=
    fun d hd => h.holds d (mem_cons_of_mem c hd)
  obtain ⟨hplain, hwrite⟩ | ⟨q, hq, hquote, hwrite⟩ :=
    p.2.write_cases (mem_passes.1 hp).2 (c :: column)
  · rw [hwrite] at h₂
    obtain ⟨s₃, rfl, h₃⟩ := h₂.of_kept hbehind
    obtain ⟨s₄, rfl, h₄⟩ := h₃.of_inside_run hcolumn hc
    have hhead : after.head? = s₄.head? := by
      refine h₄.head?_eq ?_
      simpa using startsWord_reverse_run h.column_ne h.holds ('.' :: x :: before)
    refine ⟨s₄, by simp [hwrite], ⟨h.boundary, h.text, h.column_ne, h.holds, ?_⟩, ?_⟩
    · rw [← hhead]
      exact h.longest
    · simpa [hwrite] using h₄
  · have hstop : p.2.quote = none → ∀ z : List Char, z.head?.any isNameChar = false := by
      intro hnone
      rw [hquote] at hnone
      cases hnone
    have htext : ∀ z : List Char, p.2.write (c :: column) ++ z = q :: c :: (column ++ q :: z) := by
      intro z
      rw [hwrite]
      simp
    rw [htext] at h₂
    obtain ⟨s₃, rfl, h₃⟩ := h₂.of_kept hbehind
    rcases h₃.inv with ⟨-, ht⟩ | ⟨d, s₄, t₄, rfl, ht, -, h₄⟩ |
      ⟨p', hp', ref', column', after', t', rfl, ht, href, hrest⟩
    · cases ht
    · cases ht
      have hinside : startsWord (c :: q :: '.' :: x :: before) := hc
      obtain ⟨s₅, rfl, h₅⟩ := h₄.of_inside_run hcolumn hinside
      have hrun : startsWord (column.reverse ++ c :: q :: '.' :: x :: before) := by
        simpa using startsWord_reverse_run h.column_ne h.holds (q :: '.' :: x :: before)
      obtain ⟨s₆, rfl, h₆⟩ := h₅.of_kept (noReference_inside hrun)
      refine ⟨s₆, ?_, ⟨h.boundary, h.text, h.column_ne, h.holds, fun hnone => hstop hnone s₆⟩, ?_⟩
      · rw [cons_append, cons_append, htext]
      · simpa [hwrite] using h₆
    · -- an earlier pass has written the column, so a reference stood in the marks alone
      have hquoted : p.2 ≠ plainForm := by
        intro hplain
        rw [hplain] at hquote
        cases hquote
      obtain ⟨hplain, hshared, hhead⟩ := unshared_of_quoted hjoin (hps hp') href hrest
        (m := c :: column) h.column_ne h.holds hq ht
      obtain ⟨hleft, hright⟩ := horder p' hp' hplain hquoted
      obtain ⟨after', rfl⟩ := head?_eq_some_iff.1 hhead
      rw [hplain, hleft] at href
      rw [hright] at hfold
      refine absurd (hnest before.reverse [x] q ref' column' after' ?_ ?_ hfold hq ?_) hshared
      · rw [hclause]
        simp
      · rw [reverse_reverse]
        exact h.boundary
      · simpa using href

end

/-! ## All passes -/

/-- Whether a word ends a text is seen at its last part. -/
lemma startsWord_reverse_append {w : List Char} (hw : w ≠ []) (a b : List Char) :
    startsWord ((a ++ w).reverse ++ b) = startsWord w.reverse := by
  obtain ⟨c, w', hrev⟩ := exists_cons_of_ne_nil (reverse_ne_nil_iff.2 hw)
  rw [reverse_append, hrev]
  rfl

/-- A column that is written is not empty. -/
lemma Form.write_ne_nil (f : Form) (hcolumn : column ≠ []) : f.write column ≠ [] := by
  unfold Form.write
  split
  · simp
  · exact hcolumn

/-- A reference and what is written in its place end in the same way. -/
lemma IsReference.startsWord_rewritten (h : IsReference aliasName f before ref column after)
    (left right scope : AliasScope) (current : List Char) :
    startsWord ((rewritten left right (scope, f) column).reverse ++ current) =
      startsWord (ref.reverse ++ before) := by
  have hne := f.write_ne_nil h.column_ne
  have hwritten : ∃ a, rewritten left right (scope, f) column = a ++ f.write column := by
    unfold rewritten
    split
    · exact ⟨scope.source.toList ++ ['.'], by simp⟩
    · exact ⟨[], rfl⟩
  obtain ⟨a, ha⟩ := hwritten
  obtain ⟨b, rfl, -⟩ := h.text
  have hb : b ++ '.' :: f.write column = (b ++ ['.']) ++ f.write column := by simp
  rw [ha, hb, startsWord_reverse_append hne, startsWord_reverse_append hne]

/-- The identifier of a plain name is the name in capitals. -/
lemma normalized_eq_upper (hcolumn : ∀ c ∈ column, isNameChar c) :
    Partition.normalized column = upper (String.ofList column) := by
  have hnot : ∀ c, isNameChar c = false → c ∉ column := by
    intro c hc hmem
    rw [hcolumn c hmem] at hc
    cases hc
  have htrim : trim column = column :=
    trim_eq_self fun c hc => Placement.isBlank_of_isWord (isWord_of_isNameChar (hcolumn c hc))
  have hcall : Partition.dropCall column = column := by
    unfold Partition.dropCall
    split
    · next rest hrev =>
      refine absurd (mem_reverse.1 ?_) (hnot ')' (by decide))
      rw [hrev]
      exact mem_cons_self
    · rfl
  have hquote : Partition.unquote column = column := by
    obtain _ | ⟨c, column⟩ := column
    · rfl
    · unfold Partition.unquote
      refine if_neg fun h => ?_
      rw [Bool.and_eq_true, Bool.or_eq_true, beq_iff_eq, beq_iff_eq] at h
      have hc := hcolumn c mem_cons_self
      rw [isNameChar_quote h.1] at hc
      cases hc
  unfold Partition.normalized
  rw [htrim, hcall, hquote]

/-- A column is written behind the name of its source if both sources have it. -/
lemma writeColumn_eq {p : AliasScope × Form} (hcolumn : ∀ c ∈ column, isNameChar c) :
    writeColumn [left, right] p.1 p.2 column = rewritten left right p column := by
  have hiff : isAmbiguous [left, right] (Partition.normalized column) ↔
      Shared left right column := by
    rw [normalized_eq_upper hcolumn]
    unfold isAmbiguous Shared
    simp only [countP_cons, countP_nil, contains_iff_mem]
    by_cases hleft : upper (String.ofList column) ∈ left.columns <;>
      by_cases hright : upper (String.ofList column) ∈ right.columns <;> simp [hleft, hright]
  unfold writeColumn rewritten
  simp only [hiff]

/-- A plain pass is before a quoted one only if it is of the left source. -/
lemma passes_order (left right : AliasScope) : (passes left right).Pairwise fun p' p =>
    p'.2 = plainForm → p.2 ≠ plainForm → p'.1 = left ∧ p.1 = right := by
  have hmark : ∀ q, nameQuoted q ≠ plainForm := by
    intro q h
    cases congrArg Form.quote h
  have hlast : (⟨none, isNameChar, isNameChar⟩ : Form) = plainForm := rfl
  simp only [passes, clauseForms, hlast, flatMap_cons, flatMap_nil, map_cons,
    map_nil, append_nil, cons_append, nil_append, pairwise_cons,
    mem_cons, not_mem_nil, or_false, forall_eq_or_imp, forall_eq]
  simp [hmark]

section

variable {left right : AliasScope} (hjoin : IsJoin left right) {ps : List (AliasScope × Form)}
  {before s t : List Char}

include hjoin

/-- One more pass over what earlier passes have left. -/
theorem Dealiased.comp {clause : List Char} (hdot : Undotted left right clause)
    (hnest : Unnested left right clause) (hps : ps ⊆ passes left right) {p : AliasScope × Form}
    (hp : p ∈ passes left right)
    (horder : ∀ p' ∈ ps, p'.2 = plainForm → p.2 ≠ plainForm → p'.1 = left ∧ p.1 = right)
    {current u : List Char} (hclause : clause = before.reverse ++ s)
    (hcurrent : startsWord current = startsWord before) (h : Dealiased left right ps before s t)
    (hu : Dealiased left right [p] current t u) : Dealiased left right (ps ++ [p]) before s u := by
  have hone : [p] ⊆ passes left right := by simpa using hp
  -- a reference is passed over at once, so the induction is on the length of the text
  induction hlen : s.length using Nat.strong_induction_on generalizing before current s t u with
  | _ n ih =>
    subst hlen
    rcases h.inv with ⟨rfl, rfl⟩ | ⟨c, s', t', rfl, rfl, hnone, h'⟩ |
      ⟨p', hp', ref, column, after, t', rfl, rfl, href, h'⟩
    · rcases hu.inv with ⟨-, rfl⟩ | ⟨c, s', t', hs, -⟩ |
        ⟨p', hp', ref, column, after, t', hs, -, href, -⟩
      · exact .nil
      · cases hs
      · obtain ⟨x, rfl, -⟩ := hjoin.reference_text (hone hp') href
        cases hs
    · rcases hu.inv with ⟨ht, -⟩ | ⟨d, t₁, u', ht, rfl, hnone', hu'⟩ |
        ⟨p', hp', ref, column, after, u', ht, rfl, href, hu'⟩
      · cases ht
      · cases ht
        have hnext : startsWord (c :: current) = startsWord (c :: before) := rfl
        refine .keep ?_ (ih _ (Nat.lt_succ_self _) (by simpa using hclause) hnext h' hu' rfl)
        intro p' hp' ref column after hs href
        rcases mem_append.1 hp' with hp' | hp'
        · exact hnone p' hp' ref column after hs href
        · obtain rfl := mem_singleton.1 hp'
          rw [hs] at hclause hnone h
          obtain ⟨after', ht, hfound⟩ := href.found hjoin hdot hps hp hclause hnone h
          exact hnone' p' hp' ref column after' ht (hfound.congr hcurrent)
      · obtain rfl := mem_singleton.1 hp'
        rw [ht] at h
        obtain ⟨after', hs, hfound, hrest⟩ := (href.congr hcurrent.symm).of_found hjoin hdot hnest
          hps hp horder hclause hnone h
        rw [hs] at hclause ⊢
        refine .write (mem_append_right _ hp') hfound (ih _ ?_ ?_ ?_ hrest hu' rfl)
        · rw [hs]
          exact hfound.length_lt
        · simpa using hclause
        · have hend := startsWord_reverse_append hfound.ne_nil []
          rw [nil_append] at hend
          rw [hend, hend]
    · have hafter : p'.2 = plainForm → t'.head? ≠ some '.' := by
        intro hplain
        rw [h'.head?_eq (href.startsWord_reverse hplain)]
        exact hdot p' (hps hp') _ _ _ _ hclause (href.congr (by rw [reverse_reverse]))
      obtain ⟨u', rfl, hu'⟩ := hu.rewritten hjoin hone (hps hp') href.column_ne href.holds hafter
      refine .write (mem_append_left _ hp') href (ih _ href.length_lt ?_ ?_ h' hu' rfl)
      · simpa using hclause
      · exact href.startsWord_rewritten left right p'.1 current

/-- A pass writes the references of its source and form anew. -/
lemma dealiased_pass {p : AliasScope × Form} (hp : p ∈ passes left right) (before s : List Char) :
    Dealiased left right [p] before s (substituteFrom
      (referenceRule p.1.aliasName.toList p.2 (writeColumn [left, right] p.1 p.2)) 0 before s) := by
  obtain ⟨a, ha⟩ := hjoin.isShort hp
  have hfound : ∀ before s column, reference? p.1.aliasName.toList p.2 before s = some column ↔
      ∃ ref after, s = ref ++ after ∧ IsReference p.1.aliasName p.2 before ref column after :=
    fun _ _ _ => reference?_eq_some_iff ha (mem_passes.1 hp).2
  induction hlen : s.length using Nat.strong_induction_on generalizing before s with
  | _ n ih =>
    subst hlen
    cases href : reference? p.1.aliasName.toList p.2 before s with
    | none =>
      have hnone : NoReference [p] before s := by
        intro p' hp' ref column after hs h
        obtain rfl := mem_singleton.1 hp'
        rw [(hfound before s column).2 ⟨ref, after, hs, h⟩] at href
        cases href
      have hrule : referenceRule p.1.aliasName.toList p.2 (writeColumn [left, right] p.1 p.2)
          before s = none := by
        unfold referenceRule
        rw [href]
        rfl
      cases s with
      | nil =>
        unfold substituteFrom
        rw [hrule]
        exact .nil
      | cons c s =>
        rw [substituteFrom_kept hrule]
        exact .keep hnone (ih _ (Nat.lt_succ_self _) (c :: before) s rfl)
    | some column =>
      obtain ⟨ref, after, rfl, h⟩ := (hfound before s column).1 href
      have hrule : referenceRule p.1.aliasName.toList p.2 (writeColumn [left, right] p.1 p.2)
          before (ref ++ after) = some (ref.length, rewritten left right p column) := by
        unfold referenceRule
        rw [href, Option.map_some, h.length_eq, writeColumn_eq h.holds]
      rw [substituteFrom_taken h.ne_nil hrule]
      exact .write mem_cons_self h (ih _ h.length_lt _ after rfl)

/-- The passes that remain. -/
lemma Dealiased.foldl {clause : List Char} (hdot : Undotted left right clause)
    (hnest : Unnested left right clause) {done todo : List (AliasScope × Form)}
    (hsplit : done ++ todo = passes left right) (h : Dealiased left right done [] clause t) :
    Dealiased left right (passes left right) [] clause (todo.foldl (fun text p =>
      substitute (referenceRule p.1.aliasName.toList p.2 (writeColumn [left, right] p.1 p.2)) text)
      t) := by
  induction todo generalizing done t with
  | nil =>
    rw [append_nil] at hsplit
    rwa [← hsplit]
  | cons p todo ih =>
    have hp : p ∈ passes left right := by
      rw [← hsplit]
      simp
    have hdone : done ⊆ passes left right := by
      rw [← hsplit]
      exact subset_append_left _ _
    have horder : ∀ p' ∈ done, p'.2 = plainForm → p.2 ≠ plainForm → p'.1 = left ∧ p.1 = right := by
      have hpairs := passes_order left right
      rw [← hsplit] at hpairs
      exact fun p' hp' => (pairwise_append.1 hpairs).2.2 p' hp' p mem_cons_self
    refine ih ?_ (h.comp hjoin hdot hnest hdone hp horder rfl rfl (dealiased_pass hjoin hp [] t))
    rw [append_assoc]
    exact hsplit

omit hjoin in
/-- A reference has one form and one column. -/
lemma Form.write_unique {f f' : Form} (hf : f ∈ clauseForms) (hf' : f' ∈ clauseForms)
    {aliasName aliasName' : String} {ref ref' column column' after after' : List Char}
    (h : IsReference aliasName f before ref column after)
    (h' : IsReference aliasName' f' before ref' column' after')
    (htext : f.write column ++ after = f'.write column' ++ after') : f = f' ∧ column = column' := by
  have hnot : ∀ {q : Char} {column rest rest' : List Char}, q = '\x60' ∨ q = '"' → column ≠ [] →
      (∀ c ∈ column, isNameChar c) → column ++ rest ≠ q :: rest' := by
    rintro q column rest rest' hq hne hcolumn hsame
    obtain ⟨c, column, rfl⟩ := exists_cons_of_ne_nil hne
    obtain ⟨rfl, -⟩ := cons.inj hsame
    have hc := hcolumn c mem_cons_self
    rw [isNameChar_quote hq] at hc
    cases hc
  obtain ⟨hplain, hwrite⟩ | ⟨q, hq, hquote, hwrite⟩ := f.write_cases hf column <;>
    obtain ⟨hplain', hwrite'⟩ | ⟨q', hq', hquote', hwrite'⟩ := f'.write_cases hf' column' <;>
    rw [hwrite, hwrite'] at htext
  · rw [hplain, hplain']
    refine ⟨rfl, (run_unique htext h.holds h'.holds (h.longest ?_) (h'.longest ?_)).1⟩
    · rw [hplain]
      rfl
    · rw [hplain']
      rfl
  · exact absurd htext (hnot hq' h.column_ne h.holds)
  · exact absurd htext.symm (hnot hq h'.column_ne h'.holds)
  · rw [append_assoc, append_assoc] at htext
    obtain ⟨rfl, hrest⟩ := cons.inj htext
    refine ⟨Form.eq_of_quote hf hf' (hquote.trans hquote'.symm), ?_⟩
    exact (run_unique hrest h.holds h'.holds (isNameChar_quote hq) (isNameChar_quote hq)).1

/-- There is one reference at most at a position. -/
lemma IsJoin.reference_unique {p p' : AliasScope × Form} (hp : p ∈ passes left right)
    (hp' : p' ∈ passes left right) {ref ref' column column' after after' : List Char}
    (h : IsReference p.1.aliasName p.2 before ref column after)
    (h' : IsReference p'.1.aliasName p'.2 before ref' column' after')
    (htext : ref ++ after = ref' ++ after') :
    p = p' ∧ column = column' ∧ ref = ref' ∧ after = after' := by
  obtain ⟨x, rfl, -, hx⟩ := hjoin.reference_text hp h
  obtain ⟨x', rfl, -, hx'⟩ := hjoin.reference_text hp' h'
  obtain ⟨rfl, htail⟩ := cons.inj htext
  obtain ⟨-, hcolumns⟩ := cons.inj htail
  obtain ⟨hscope, hform⟩ := mem_passes.1 hp
  obtain ⟨hscope', hform'⟩ := mem_passes.1 hp'
  have hletters : ¬SameFolded left.aliasName.toList right.aliasName.toList := by
    rw [hjoin.left_alias, hjoin.right_alias]
    decide
  have hfirst : p.1 = p'.1 := by
    rcases hscope with hscope | hscope <;> rcases hscope' with hscope' | hscope'
    · rw [hscope, hscope']
    · rw [hscope] at hx
      rw [hscope'] at hx'
      exact absurd (hx.symm.trans hx') hletters
    · rw [hscope] at hx
      rw [hscope'] at hx'
      exact absurd (hx'.symm.trans hx) hletters
    · rw [hscope, hscope']
  obtain ⟨hsecond, rfl⟩ := Form.write_unique hform hform' h h' hcolumns
  refine ⟨Prod.ext hfirst hsecond, rfl, by rw [hsecond], ?_⟩
  rw [hsecond] at hcolumns
  exact append_cancel_left hcolumns

/-- There is one result of writing references anew. -/
lemma Dealiased.unique (hps : ps ⊆ passes left right) {t' : List Char}
    (h : Dealiased left right ps before s t) (h' : Dealiased left right ps before s t') :
    t = t' := by
  induction h generalizing t' with
  | nil =>
    rcases h'.inv with ⟨-, rfl⟩ | ⟨c, s', t', hs, -⟩ |
      ⟨p, hp, ref, column, after, t', hs, -, href, -⟩
    · rfl
    · cases hs
    · exact absurd (append_eq_nil_iff.1 hs.symm).1 href.ne_nil
  | keep hnone _ ih =>
    obtain ⟨t', rfl, hrest⟩ := h'.kept hnone
    rw [ih hrest]
  | write hp href _ ih =>
    rcases h'.inv with ⟨hs, -⟩ | ⟨c, s', t', hs, -, hnone, -⟩ |
      ⟨p', hp', ref', column', after', t', hs, rfl, href', hrest⟩
    · exact absurd (append_eq_nil_iff.1 hs).1 href.ne_nil
    · exact absurd href (hnone _ hp _ _ _ hs.symm)
    · obtain ⟨rfl, rfl, rfl, rfl⟩ := hjoin.reference_unique (hps hp) (hps hp') href href' hs
      rw [ih hrest]

end

/-- Dropping the aliases of a join is one rewriting of its references: the result is the one text
that is the clause with each reference written anew and all else kept. -/
theorem dropFromClause_at_once {left right : AliasScope} (hjoin : IsJoin left right)
    {clause : String} (hdot : Undotted left right clause.toList)
    (hnest : Unnested left right clause.toList) (t : String) :
    Dealiased left right (passes left right) [] clause.toList t.toList ↔
      dropFromClause [left, right] clause = t := by
  have hpasses : Dealiased left right (passes left right) [] clause.toList
      (dropFromClause [left, right] clause).toList := by
    unfold dropFromClause
    rw [String.toList_ofList]
    exact (Dealiased.refl left right [] clause.toList).foldl hjoin hdot hnest (nil_append _)
  constructor
  · intro h
    exact String.toList_inj.1 (hpasses.unique hjoin (List.Subset.refl _) h)
  · rintro rfl
    exact hpasses

/-! ## Checking a clause -/

/-- The column of a plain reference to the left source that stands alone in quotation marks behind
the alias of the right source. -/
def nested? (left right : AliasScope) (before s : List Char) : Option (List Char) :=
  if startsWord before then none
  else (dropFolded? (right.aliasName.toList ++ ['.']) s).bind fun behind =>
    behind.head?.bind fun q =>
      if q == '\x60' || q == '"' then
        (reference? left.aliasName.toList plainForm [q] behind.tail).filter fun column =>
          (behind.tail.drop (left.aliasName.toList.length + 1 + column.length)).head? == some q
      else none

section

variable {left right : AliasScope} (hjoin : IsJoin left right) {clause : List Char}

include hjoin

/-- References are where they are found. -/
lemma IsJoin.reference?_eq {p : AliasScope × Form} (hp : p ∈ passes left right)
    {before ref column after : List Char}
    (h : IsReference p.1.aliasName p.2 before ref column after) :
    reference? p.1.aliasName.toList p.2 before (ref ++ after) = some column := by
  obtain ⟨a, ha⟩ := hjoin.isShort hp
  exact (reference?_eq_some_iff ha (mem_passes.1 hp).2).2 ⟨ref, after, rfl, h⟩

/-- A position at which no pass finds a reference. -/
lemma noReference_of_all {before s : List Char} (h : ((passes left right).all fun p =>
    (reference? p.1.aliasName.toList p.2 before s).isNone)) :
    NoReference (passes left right) before s := by
  intro p hp ref column after hs href
  have hnone := all_eq_true.1 h p hp
  rw [hs, hjoin.reference?_eq hp href] at hnone
  cases hnone

/-- A clause in which no pass finds a reference with a full stop behind it. -/
lemma undotted_of_forall (h : ∀ n < clause.length + 1, ((passes left right).all fun p =>
    (reference? p.1.aliasName.toList p.2 (clause.take n).reverse (clause.drop n)).all fun column =>
      (clause.drop (n + (p.1.aliasName.toList.length + 1 + (p.2.write column).length))).head? !=
        some '.')) : Undotted left right clause := by
  rintro p hp lead ref column after rfl href
  have hlead : lead.length < (lead ++ (ref ++ after)).length + 1 := by
    rw [length_append]
    omega
  have hall := all_eq_true.1 (h lead.length hlead) p hp
  rw [take_left, drop_left, hjoin.reference?_eq hp href, Option.all_some, href.length_eq,
    ← length_append, ← append_assoc, drop_left] at hall
  simpa using hall

/-- No column stands alone in quotation marks unless both sources have it. -/
lemma unnested_of_forall (h : ∀ n < clause.length + 1,
    (nested? left right (clause.take n).reverse (clause.drop n)).all
      (fun column => decide (Shared left right column))) : Unnested left right clause := by
  rintro lead a q ref column after rfl hlead ha hq href
  have hp : (left, plainForm) ∈ passes left right :=
    mem_passes.2 ⟨.inl rfl, by simp [clauseForms, plainForm]⟩
  have hfound : reference? left.aliasName.toList plainForm [q] (ref ++ q :: after) = some column :=
    hjoin.reference?_eq hp (href.congr rfl)
  have hdrop : dropFolded? (right.aliasName.toList ++ ['.'])
      (a ++ '.' :: q :: (ref ++ q :: after)) = some (q :: (ref ++ q :: after)) := by
    refine dropFolded?_eq_some_iff.2 ⟨a ++ ['.'], by simp, ?_⟩
    unfold SameFolded at ha ⊢
    rw [map_append, map_append, ha]
  have hend : ((ref ++ q :: after).drop (left.aliasName.toList.length + 1 + column.length)).head? =
      some q := by
    have hlength : left.aliasName.toList.length + 1 + column.length = ref.length := href.length_eq
    rw [hlength, drop_left]
    rfl
  have hlength : lead.length < (lead ++ (a ++ '.' :: q :: (ref ++ q :: after))).length + 1 := by
    rw [length_append]
    omega
  have hall := h lead.length hlength
  rw [take_left, drop_left] at hall
  unfold nested? at hall
  have hmark : (q == '\x60' || q == '"') := by
    rcases hq with rfl | rfl <;> rfl
  rw [hlead, hdrop, if_neg Bool.false_ne_true, Option.bind_some, head?_cons, Option.bind_some,
    tail_cons, hfound, if_pos hmark, Option.filter_some, if_pos (beq_iff_eq.2 hend),
    Option.all_some] at hall
  exact of_decide_eq_true hall

end

/-! ## A join of trades and quotes -/

/-- The trades of a join. -/
def trades : AliasScope :=
  ⟨primaryAlias, "TRADES", ["ID", "S", "PRICE"]⟩

/-- The quotes of a join. -/
def quotes : AliasScope :=
  ⟨joinAlias, "QUOTES", ["REF", "S", "BID"]⟩

lemma isJoin_trades_quotes : IsJoin trades quotes := by
  refine ⟨rfl, rfl, ⟨by decide, all_eq_true.1 (by decide), by decide⟩,
    ⟨by decide, all_eq_true.1 (by decide), by decide⟩⟩

/-- References of all forms to both sources, one inside the marks of another. -/
theorem dropFromClause_at_once_trades :
    Dealiased trades quotes (passes trades quotes) []
      "o.Id=i.\"Bid\" OR I.`s`=O.S OR i.`o.s`='x.o.y'".toList
      "Id=\"Bid\" OR QUOTES.`s`=TRADES.S OR i.`TRADES.s`='x.y'".toList :=
  (dropFromClause_at_once isJoin_trades_quotes
    (undotted_of_forall isJoin_trades_quotes (by decide +kernel))
    (unnested_of_forall isJoin_trades_quotes (by decide +kernel)) _).2 (by decide +kernel)

/-- A reference alone in quotation marks, with its alias dropped, is taken for a column of the other
source. And columns are read ignoring case, so the Kelvin sign is one of their letters. -/
theorem dropFromClause_nested :
    Undotted trades quotes "i.`o.c`".toList ∧
      dropFromClause [trades, quotes] "i.`o.c`" = "`c`" ∧
      ¬Dealiased trades quotes (passes trades quotes) [] "i.`o.c`".toList "`c`".toList ∧
      dropFromClause [trades, quotes] "o.s\u212a" = "s\u212a" ∧
      Shared trades quotes "s".toList := by
  refine ⟨undotted_of_forall isJoin_trades_quotes (by decide +kernel), by decide +kernel, ?_,
    by decide +kernel, by decide +kernel⟩
  intro h
  obtain ⟨t, ht, -⟩ := h.kept (noReference_of_all isJoin_trades_quotes (by decide +kernel))
  cases ht

end StreamQuery.AliasScope
