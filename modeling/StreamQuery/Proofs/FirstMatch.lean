import StreamQuery.Edit.Placement
import StreamQuery.Proofs.KeyPathEdits

/-!
# Edits that act once

Exchanging the source of a statement and placing its window act at the first place that they find,
and find none across a quotation mark.  So a string literal stays as it is if a place has been found
before it, and else the edit does to it what it does to the literal alone.  Both edits are instances
of `editFirst`, and `LookLocal.edits` is the statement about it.
-/

namespace StreamQuery.Placement

open Text List

/-! ## The first place -/

/-- What is found at a position. -/
inductive Look where
  | pass
  /-- Nothing, neither here nor in the next characters. -/
  | skip (n : Nat)
  /-- A place for the edit: what is written there, and the text behind it. -/
  | found (written after : List Char)

/-- What is found if the text goes on. -/
def Look.extend (post : List Char) : Look → Look
  | .found written after => .found written (after ++ post)
  | .skip n => .skip n
  | .pass => .pass

/-- The edit at the first place behind `before`, after `skip` characters. -/
def editFirst (look : List Char → List Char → Look) :
    (skip : Nat) → (before rest : List Char) → List Char
  | _, _, [] => []
  | skip + 1, before, c :: rest => c :: editFirst look skip (c :: before) rest
  | 0, before, c :: rest =>
    match look before (c :: rest) with
    | .pass => c :: editFirst look 0 (c :: before) rest
    | .skip n => c :: editFirst look n (c :: before) rest
    | .found written after => written ++ after

/-- True when there is a place behind `before`, after `skip` characters. -/
def finds (look : List Char → List Char → Look) :
    (skip : Nat) → (before rest : List Char) → Bool
  | _, _, [] => false
  | skip + 1, before, c :: rest => finds look skip (c :: before) rest
  | 0, before, c :: rest =>
    match look before (c :: rest) with
    | .pass => finds look 0 (c :: before) rest
    | .skip n => finds look n (c :: before) rest
    | .found _ _ => true

/-- A look that does not reach across a mark. -/
structure LookLocal (look : List Char → List Char → Look) : Prop where
  /-- What follows a mark ahead is left as it is. -/
  ahead : ∀ before u post, '\'' ∈ u → look before (u ++ post) = (look before u).extend post
  /-- What precedes a mark behind does not matter. -/
  behind : ∀ near before rest, look (near ++ '\'' :: before) rest = look (near ++ ['\'']) rest
  mark : ∀ before rest, look before ('\'' :: rest) = .pass
  /-- A mark ahead is not passed over. -/
  skip : ∀ before y n, look before (y ++ ['\'']) = .skip n → n < y.length
  /-- A mark ahead is behind the place. -/
  found : ∀ before y written after, look before (y ++ ['\'']) = .found written after →
    ∃ y', after = y' ++ ['\'']

namespace LookLocal

variable {look : List Char → List Char → Look} (h : LookLocal look)

include h

lemma editFirst_behind (skip : Nat) (near before rest : List Char) :
    editFirst look skip (near ++ '\'' :: before) rest =
      editFirst look skip (near ++ ['\'']) rest := by
  induction rest generalizing skip near with
  | nil => cases skip <;> rfl
  | cons c rest ih =>
    have hnext : ∀ skip, editFirst look skip (c :: (near ++ '\'' :: before)) rest =
        editFirst look skip (c :: (near ++ ['\''])) rest := fun skip => ih skip (c :: near)
    cases skip with
    | zero => simp only [editFirst, h.behind, hnext]
    | succ skip => simp only [editFirst, hnext]

variable {skip : Nat} {before a : List Char}

/-- Before a mark, a character is kept and the search goes on, or the place is there and the text
from the mark on stays. -/
lemma editFirst_cons {c : Char} (hskip : skip ≤ (c :: a).length) :
    (∃ next ≤ a.length, finds look skip before (c :: a ++ ['\'']) =
        finds look next (c :: before) (a ++ ['\'']) ∧
      ∀ post, editFirst look skip before (c :: a ++ '\'' :: post) =
        c :: editFirst look next (c :: before) (a ++ '\'' :: post)) ∨
    (finds look skip before (c :: a ++ ['\'']) ∧
      ∃ a', ∀ post, editFirst look skip before (c :: a ++ '\'' :: post) = a' ++ '\'' :: post) := by
  have hlook : ∀ post, look before (c :: (a ++ '\'' :: post)) =
      (look before (c :: (a ++ ['\'']))).extend post := by
    intro post
    have happend := h.ahead before (c :: (a ++ ['\''])) post (by simp)
    simpa using happend
  cases skip with
  | succ skip => exact .inl ⟨skip, Nat.le_of_succ_le_succ hskip, rfl, fun post => rfl⟩
  | zero =>
    cases hmatch : look before (c :: (a ++ ['\''])) with
    | pass =>
      refine .inl ⟨0, Nat.zero_le _, ?_, fun post => ?_⟩
      · simp only [cons_append, finds, hmatch]
      · simp only [cons_append, editFirst, hlook post, hmatch, Look.extend]
    | skip n =>
      refine .inl ⟨n, Nat.le_of_lt_succ (h.skip before (c :: a) n hmatch), ?_, fun post => ?_⟩
      · simp only [cons_append, finds, hmatch]
      · simp only [cons_append, editFirst, hlook post, hmatch, Look.extend]
    | found written after =>
      obtain ⟨y', rfl⟩ := h.found before (c :: a) written after hmatch
      refine .inr ⟨?_, written ++ y', fun post => ?_⟩
      · simp only [cons_append, finds, hmatch]
      · simp [editFirst, hlook post, hmatch, Look.extend]

/-- If there is a place before a mark, the text from the mark on stays. -/
lemma editFirst_of_finds (hskip : skip ≤ a.length) (hfinds : finds look skip before (a ++ ['\''])) :
    ∃ a', ∀ post, editFirst look skip before (a ++ '\'' :: post) = a' ++ '\'' :: post := by
  induction a generalizing skip before with
  | nil =>
    obtain rfl : skip = 0 := Nat.le_zero.1 hskip
    simp only [nil_append, finds, h.mark] at hfinds
    cases hfinds
  | cons c a ih =>
    rcases h.editFirst_cons hskip with ⟨next, hnext, hsame, hkept⟩ | ⟨-, hplace⟩
    · obtain ⟨a', ha'⟩ := ih hnext (hsame ▸ hfinds)
      exact ⟨c :: a', fun post => by rw [hkept, ha', cons_append]⟩
    · exact hplace

/-- If there is no place before a mark, the text up to the mark stays. -/
lemma editFirst_of_not_finds (hskip : skip ≤ a.length)
    (hfinds : finds look skip before (a ++ ['\'']) = false) (post : List Char) :
    editFirst look skip before (a ++ '\'' :: post) =
      a ++ '\'' :: editFirst look 0 ['\''] post := by
  induction a generalizing skip before with
  | nil =>
    obtain rfl : skip = 0 := Nat.le_zero.1 hskip
    simp only [nil_append, editFirst, h.mark]
    exact congrArg _ (h.editFirst_behind 0 [] before post)
  | cons c a ih =>
    rcases h.editFirst_cons hskip with ⟨next, hnext, hsame, hkept⟩ | ⟨hfound, -⟩
    · rw [hkept, ih hnext (hsame ▸ hfinds), cons_append]
    · rw [hfound] at hfinds
      cases hfinds

/-- A literal behind a place stays, and else becomes what it becomes alone. -/
theorem edits (before post : List Char) {lit : List Char} (hlit : IsQuoted lit) :
    ∃ lit' before' post',
      (lit' = if finds look 0 [] (before ++ ['\'']) then lit else editFirst look 0 [] lit) ∧
        IsQuoted lit' ∧ Edits (editFirst look 0 []) before lit post before' lit' post' := by
  obtain ⟨body, rfl⟩ := hlit
  cases hbefore : finds look 0 [] (before ++ ['\'']) with
  | true =>
    obtain ⟨before', hbefore'⟩ := h.editFirst_of_finds (Nat.zero_le _) hbefore
    refine ⟨_, before', post, (if_pos rfl).symm, ⟨body, rfl⟩, hbefore' [], ?_⟩
    rw [quoted_append, hbefore']
    simp
  | false =>
    have hupTo := h.editFirst_of_not_finds (Nat.zero_le _) hbefore
    have hmark : editFirst look 0 [] (before ++ ['\'']) = before ++ ['\''] := hupTo []
    have halone : editFirst look 0 [] ('\'' :: (body ++ ['\''])) =
        '\'' :: editFirst look 0 ['\''] (body ++ ['\'']) := by
      simp only [editFirst, h.mark]
    cases hbody : finds look 0 ['\''] (body ++ ['\'']) with
    | true =>
      obtain ⟨body', hbody'⟩ := h.editFirst_of_finds (Nat.zero_le _) hbody
      rw [hbody'] at halone
      refine ⟨'\'' :: (body' ++ ['\'']), before, post, ?_, ⟨body', rfl⟩, hmark, ?_⟩
      · rw [halone]
        rfl
      · rw [quoted_append, hupTo, hbody']
        simp
    | false =>
      have hinside := h.editFirst_of_not_finds (Nat.zero_le _) hbody
      rw [hinside []] at halone
      refine ⟨'\'' :: (body ++ ['\'']), before, editFirst look 0 ['\''] post, ?_, ⟨body, rfl⟩,
        hmark, ?_⟩
      · rw [halone]
        rfl
      · rw [quoted_append, hupTo, hinside]
        simp

end LookLocal

/-! ## Source names -/

/-- A source name in a text that goes on. -/
def SourceName.extend (post : List Char) (s : SourceName) : SourceName :=
  { s with after := s.after ++ post }

variable {u : List Char} {s : SourceName}

/-- A source name is found without looking across marks. -/
lemma sourceAt?_ahead (before : List Char) (hu : '\'' ∈ u) (post : List Char) :
    sourceAt? before (u ++ post) = (sourceAt? before u).map (SourceName.extend post) := by
  have hfrom : '\'' ∉ "FROM".toList := by decide
  unfold sourceAt?
  rw [wordBoundary_ahead before hu, dropFolded?_append hfrom hu]
  split
  · cases hbehind : dropFolded? "FROM".toList u with
    | none => rfl
    | some behind =>
      obtain ⟨m, rfl, hlength, hmark⟩ := dropFolded?_split hbehind
      have hmem := (mem_append.1 hu).resolve_left (hmark hfrom)
      have hblank : isBlank '\'' = false := by decide
      have hword : isWord '\'' = false := rfl
      have hnamed := mem_dropWhile hblank hmem
      have htake : (m ++ behind ++ post).take 4 = (m ++ behind).take 4 := by
        have hfour : m.length = 4 := hlength
        rw [append_assoc, ← hfour, take_left, take_left]
      simp only [Option.map_some, takeWhile_append_of_mem hblank hmem,
        dropWhile_append_of_mem hblank hmem, head?_append_of_mem hnamed, htake,
        takeWhile_append_of_mem hword hnamed, dropWhile_append_of_mem hword hnamed]
      split
      · rfl
      · rfl
  · rfl

/-- A source name is FROM, the name and what follows, with no mark before the end of the name. -/
lemma sourceAt?_split {before : List Char} (h : sourceAt? before u = some s) :
    u = s.lead ++ s.name ++ s.after ∧ '\'' ∉ s.lead ++ s.name ∧ s.lead ≠ [] := by
  unfold sourceAt? at h
  split at h
  · split at h
    · cases h
    · next behind hbehind =>
      obtain ⟨m, rfl, hlength, hmark⟩ := dropFolded?_split hbehind
      dsimp only at h
      split at h
      · cases h
        have hfour : m.length = 4 := hlength
        have hgap := not_mem_takeWhile (show isBlank '\'' = false by decide) behind
        have hname := not_mem_takeWhile (show isWord '\'' = false from rfl)
          (behind.dropWhile isBlank)
        have hlead := hmark (by decide)
        have htake : (m ++ behind).take 4 = m := by rw [← hfour, take_left]
        simp only [htake]
        refine ⟨?_, by simp [hlead, hgap, hname], fun hnil => ?_⟩
        · rw [append_assoc, append_assoc, takeWhile_append_dropWhile,
            takeWhile_append_dropWhile]
        · rw [(append_eq_nil_iff.1 hnil).1] at hfour
          cases hfour
      · cases h
  · cases h

lemma sourceAt?_behind (near before rest : List Char) :
    sourceAt? (near ++ '\'' :: before) rest = sourceAt? (near ++ ['\'']) rest := by
  unfold sourceAt?
  rw [wordBoundary_behind]

lemma sourceAt?_mark (before rest : List Char) : sourceAt? before ('\'' :: rest) = none := by
  cases h : sourceAt? before ('\'' :: rest) with
  | none => rfl
  | some s =>
    obtain ⟨hrest, hmark, hlead⟩ := sourceAt?_split h
    have hzero := length_le_of_mark (y := []) hrest hmark
    rw [length_append, length_nil] at hzero
    exact absurd (eq_nil_of_length_eq_zero (by omega)) hlead

/-- The text behind a source name before a mark ends with the mark. -/
lemma sourceAt?_after {before y : List Char} (h : sourceAt? before (y ++ ['\'']) = some s) :
    s.lead.length + s.name.length ≤ y.length ∧ ∃ y', s.after = y' ++ ['\''] := by
  obtain ⟨hrest, hmark, -⟩ := sourceAt?_split h
  obtain ⟨y', rfl, hafter⟩ := split_before_mark hrest hmark
  refine ⟨?_, y', hafter⟩
  rw [length_append, length_append]
  exact Nat.le_add_right ..

/-! ## Exchanging the source -/

/-- The place for another source name. -/
def retargetLook (input before rest : List Char) : Look :=
  match sourceAt? before rest with
  | some s => .found (s.lead ++ input) s.after
  | none => .pass

lemma retargetFrom_eq (input before rest : List Char) :
    retargetFrom input before rest = editFirst (retargetLook input) 0 before rest := by
  induction rest generalizing before with
  | nil => rfl
  | cons c rest ih =>
    rw [retargetFrom, editFirst, retargetLook]
    cases sourceAt? before (c :: rest) with
    | none => exact congrArg _ (ih (c :: before))
    | some s => rfl

lemma retargetLook_local (input : List Char) : LookLocal (retargetLook input) where
  ahead before u post hu := by
    unfold retargetLook
    rw [sourceAt?_ahead before hu]
    cases sourceAt? before u with
    | none => rfl
    | some s => rfl
  behind near before rest := by
    unfold retargetLook
    rw [sourceAt?_behind]
  mark before rest := by
    unfold retargetLook
    rw [sourceAt?_mark]
  skip before y n hlook := by
    unfold retargetLook at hlook
    split at hlook
    · cases hlook
    · cases hlook
  found before y written after hlook := by
    unfold retargetLook at hlook
    split at hlook
    · next s hs =>
      cases hlook
      exact (sourceAt?_after hs).2
    · cases hlook

/-! ## Placing the window -/

lemma startsKeyword_append (hu : '\'' ∈ u) (post : List Char) :
    startsKeyword (u ++ post) = startsKeyword u := by
  have hkeywords : ∀ word ∈ keywords, '\'' ∉ word.toList := by decide
  unfold startsKeyword
  rw [Bool.eq_iff_iff, any_eq_true, any_eq_true]
  refine exists_congr fun word => and_congr_right fun hword => ?_
  rw [dropFolded?_append (hkeywords word hword) hu]
  cases hafter : dropFolded? word.toList u with
  | none => rfl
  | some after =>
    obtain ⟨m, rfl, -, hmark⟩ := dropFolded?_split hafter
    have hmem := (mem_append.1 hu).resolve_left (hmark (hkeywords word hword))
    simp only [Option.map_some, startsWord, head?_append_of_mem hmem]

lemma endsSource_append (hu : '\'' ∈ u) (post : List Char) :
    endsSource (u ++ post) = endsSource u := by
  have hblank : isBlank '\'' = false := by decide
  unfold endsSource
  rw [head?_append_of_mem hu, dropWhile_append_of_mem hblank hu,
    startsKeyword_append (mem_dropWhile hblank hu)]

lemma alias?_append (hu : '\'' ∈ u) (post : List Char) :
    alias? (u ++ post) = (alias? u).map fun (aliasName, after) => (aliasName, after ++ post) := by
  have hblank : isBlank '\'' = false := by decide
  have hword : isWord '\'' = false := rfl
  have hnamed := mem_dropWhile hblank hu
  unfold alias?
  simp only [takeWhile_append_of_mem hblank hu, dropWhile_append_of_mem hblank hu,
    head?_append_of_mem hnamed, startsKeyword_append hnamed, takeWhile_append_of_mem hword hnamed,
    dropWhile_append_of_mem hword hnamed]
  split
  · rfl
  · rfl

lemma alias?_split {aliasName after : List Char} (h : alias? u = some (aliasName, after)) :
    u = aliasName ++ after ∧ '\'' ∉ aliasName := by
  unfold alias? at h
  dsimp only at h
  split at h
  · cases h
    have hgap := not_mem_takeWhile (show isBlank '\'' = false by decide) u
    have hname := not_mem_takeWhile (show isWord '\'' = false from rfl)
      (u.dropWhile isBlank)
    refine ⟨?_, by simp [hgap, hname]⟩
    rw [append_assoc, takeWhile_append_dropWhile, takeWhile_append_dropWhile]
  · cases h

lemma spot?_extend (hs : '\'' ∈ s.after) (post : List Char) :
    (s.extend post).spot? = s.spot?.map fun (upTo, after) => (upTo, after ++ post) := by
  unfold SourceName.spot? SourceName.extend
  dsimp only
  rw [alias?_append hs, endsSource_append hs]
  cases halias : alias? s.after with
  | none =>
    simp only [Option.map_none, Option.filter_none]
    split
    · rfl
    · rfl
  | some found =>
    obtain ⟨aliasName, after⟩ := found
    obtain ⟨hafter, hmark⟩ := alias?_split halias
    have hmem : '\'' ∈ after := by
      rw [hafter] at hs
      exact (mem_append.1 hs).resolve_left hmark
    simp only [Option.map_some, Option.filter, endsSource_append hmem]
    by_cases hends : endsSource after
    · rw [if_pos hends, if_pos hends]
      rfl
    · rw [if_neg hends, if_neg hends]
      dsimp only
      split
      · rfl
      · rfl

lemma spot?_after {y upTo after : List Char} (hs : s.after = y ++ ['\''])
    (h : s.spot? = some (upTo, after)) : ∃ y', after = y' ++ ['\''] := by
  unfold SourceName.spot? at h
  split at h
  · next aliasName rest hfound =>
    cases h
    obtain ⟨hafter, hmark⟩ := alias?_split (Option.filter_eq_some_iff.1 hfound).1
    rw [hs] at hafter
    obtain ⟨y', -, hrest⟩ := split_before_mark hafter hmark
    exact ⟨y', hrest⟩
  · split at h
    · cases h
      exact ⟨y, hs⟩
    · cases h

/-- The place for a window. -/
def placeLook (window before rest : List Char) : Look :=
  match sourceAt? before rest with
  | none => .pass
  | some s =>
    match s.spot? with
    | some (upTo, after) => .found (upTo ++ ' ' :: window) after
    | none => .skip (s.lead.length + s.name.length - 1)

lemma placeFrom_eq (window : List Char) (skip : Nat) (before rest : List Char) :
    placeFrom window skip before rest = editFirst (placeLook window) skip before rest := by
  induction rest generalizing skip before with
  | nil => cases skip <;> rfl
  | cons c rest ih =>
    cases skip with
    | succ skip => exact congrArg _ (ih skip (c :: before))
    | zero =>
      rw [placeFrom, editFirst, placeLook]
      cases sourceAt? before (c :: rest) with
      | none => exact congrArg _ (ih 0 (c :: before))
      | some s =>
        dsimp only
        cases s.spot? with
        | none => exact congrArg _ (ih _ (c :: before))
        | some spot => rfl

lemma placeLook_local (window : List Char) : LookLocal (placeLook window) where
  ahead before u post hu := by
    unfold placeLook
    rw [sourceAt?_ahead before hu]
    cases hs : sourceAt? before u with
    | none => rfl
    | some s =>
      obtain ⟨hrest, hmark, -⟩ := sourceAt?_split hs
      have hmem : '\'' ∈ s.after := by
        rw [hrest] at hu
        exact (mem_append.1 hu).resolve_left hmark
      simp only [Option.map_some, spot?_extend hmem]
      cases s.spot? with
      | none => rfl
      | some spot => rfl
  behind near before rest := by
    unfold placeLook
    rw [sourceAt?_behind]
  mark before rest := by
    unfold placeLook
    rw [sourceAt?_mark]
  skip before y n hlook := by
    unfold placeLook at hlook
    split at hlook
    · cases hlook
    · next s hs =>
      split at hlook
      · cases hlook
      · cases hlook
        have hle := (sourceAt?_after hs).1
        have hlead := length_pos_iff.2 (sourceAt?_split hs).2.2
        omega
  found before y written after hlook := by
    unfold placeLook at hlook
    split at hlook
    · cases hlook
    · next s hs =>
      split at hlook
      · next upTo rest hspot =>
        cases hlook
        obtain ⟨-, y', hy'⟩ := sourceAt?_after hs
        exact spot?_after hy' hspot
      · cases hlook

end StreamQuery.Placement
