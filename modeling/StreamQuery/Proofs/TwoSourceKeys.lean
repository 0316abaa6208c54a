import Mathlib.Data.List.Nodup
import StreamQuery.Proofs.KeyPathsOnce
import StreamQuery.Statement.Create

/-!
# Key paths of two sources

A binding writes the path of a key column for its own references (`apply_reference`) and leaves
those of the other source alone (`apply_other`).  A path of the other source stays as it is
(`apply_path`), except that the bare word at the front of a path in dot style is taken for a
reference if the source has one key column (`apply_dotPath`).

`writtenOnce_apply_iff` says when every clause has its references written once, and
`apply_eq_apply_iff` when references to keys of the two sources become the same text.
-/

namespace StreamQuery

open Text List WordEdit

/-! ## Edits of single references -/

namespace WordEdit

/-- The edit leaves a text alone that follows `before`. -/
def Keeps (e : WordEdit) (before s : List Char) : Prop :=
  substituteFrom e.rule 0 before s = s

section

variable {e : WordEdit} (hword : KeyWord e.word)

include hword

lemma keeps_nil (before : List Char) : e.Keeps before [] :=
  substituteFrom_nil hword.wholeWord before

lemma keeps_between {c : Char} (hc : isWord c = false) {before rest : List Char}
    (h : e.Keeps (c :: before) rest) : e.Keeps before (c :: rest) :=
  (substituteFrom_between hword.wholeWord hc before rest).trans (congrArg (c :: ·) h)

/-- A word at which nothing is found. -/
lemma keeps_word {w before rest : List Char} (hw : IsWordText w)
    (hnone : afterWord? e.word before (w ++ rest) = none)
    (h : e.Keeps (w.reverse ++ before) rest) : e.Keeps before (w ++ rest) := by
  refine (substituteFrom_word hword.wholeWord hw fun after hfound => ?_).trans
    (congrArg (w ++ ·) h)
  rw [hnone] at hfound
  cases hfound

end

lemma PassesOver.run_eq {e : WordEdit} (hword : KeyWord e.word) {path : List Char}
    (h : e.PassesOver path) : e.run path = path := by
  have hpath := h [] [] rfl rfl
  rwa [rule, substituteFrom_nil hword.wholeWord, append_nil] at hpath

end WordEdit

namespace KeyBinding

variable {b : KeyBinding}

variable {key name : String}

/-- The edit for the bare word leaves another word alone. -/
lemma loneEdit_keeps (b : KeyBinding) (lone : String) {w before rest : List Char}
    (hw : IsWordText w) (hkey : ¬ SameFolded w "KEY".toList) (hrest : startsWord rest = false)
    (h : (b.loneEdit lone).Keeps (w.reverse ++ before) rest) :
    (b.loneEdit lone).Keeps before (w ++ rest) := by
  refine keeps_word keyWord_key hw ?_ h
  rw [Option.eq_none_iff_forall_ne_some]
  intro after hfound
  exact hkey (key_found hw hrest hfound).2

/-- The edit for a key column leaves a word that is neither key nor alias. -/
lemma keyEdit_keeps (hb : b.Named) (hkey : IsKeyName key) {w before rest : List Char}
    (hw : IsWordText w) (hne : w ≠ []) (hsingle : b.aliasName = "" → ¬ SameFolded w key.toList)
    (hdotted : b.aliasName ≠ "" → ¬ SameFolded w b.aliasName.toList)
    (hrest : startsWord rest = false) (h : (b.keyEdit key).Keeps (w.reverse ++ before) rest) :
    (b.keyEdit key).Keeps before (w ++ rest) := by
  refine keeps_word (keyWord_reference hb hkey) hw ?_ h
  rw [Option.eq_none_iff_forall_ne_some]
  intro after hfound
  rcases reference_cases hb.aliasName key with ⟨halias, href⟩ | ⟨a, ha, halias, href⟩
  · rw [keyEdit, href] at hfound
    exact hsingle halias (single_found hkey.toList_ne_nil hkey.namePart hw hrest hfound).2
  · rw [keyEdit, href] at hfound
    refine hdotted (fun hnone => ?_) (halias ▸ (dotted_found ha hkey hw hne hfound).1)
    rw [hnone] at halias
    cases halias

lemma loneEdit_keeps_name (b : KeyBinding) (lone : String) (hname : IsKeyName name)
    (before : List Char) : (b.loneEdit lone).Keeps before name.toList := by
  rw [← append_nil name.toList]
  exact b.loneEdit_keeps lone hname.isWordText (hname.not_sameFolded (by decide)) rfl
    (keeps_nil keyWord_key _)

/-- The edit for a key column behind an alias leaves a key name alone that ends a text. -/
lemma keyEdit_keeps_name (hb : b.Named) (haliased : b.aliasName ≠ "") (hkey : IsKeyName key)
    (hname : IsKeyName name) (before : List Char) : (b.keyEdit key).Keeps before name.toList := by
  rw [← append_nil name.toList]
  refine keyEdit_keeps hb hkey hname.isWordText hname.toList_ne_nil
    (fun hnone => absurd hnone haliased) (fun _ => ?_) rfl
    (keeps_nil (keyWord_reference hb hkey) _)
  rcases reference_cases hb.aliasName key with ⟨hnone, -⟩ | ⟨a, ha, halias, -⟩
  · exact absurd hnone haliased
  · exact halias ▸ hname.not_alias ha

/-- What each edit keeps, all edits of a binding keep. -/
lemma apply_induction {P : List Char → Prop} (h : ∀ e ∈ b.edits, ∀ s, P s → P (e.run s))
    {s : List Char} (hs : P s) : P (b.apply s) := by
  rw [apply_eq]
  exact foldlRecOn (motive := P) _ _ hs fun s hs e he => h e he s hs

/-! ### References of the binding -/

lemma isWordText_alias {a : Char} (ha : a = 'o' ∨ a = 'i') : IsWordText [a] := by
  rcases ha with rfl | rfl
  · exact all_eq_true.1 (by decide)
  · exact all_eq_true.1 (by decide)

/-- The bare word is not in a reference. -/
lemma loneEdit_run_reference (b' : KeyBinding) (hb : b.Named) (lone : String)
    (hkey : IsKeyName key) :
    (b'.loneEdit lone).run (b.reference key).toList = (b.reference key).toList := by
  have hname := b'.loneEdit_keeps_name lone hkey
  rcases reference_cases hb.aliasName key with ⟨-, href⟩ | ⟨a, ha, -, href⟩
  · rw [href]
    exact hname []
  · rw [href]
    refine b'.loneEdit_keeps lone (w := [a]) (isWordText_alias ha) (fun hsame => ?_)
      (by decide : isWord '.' = false)
      (keeps_between keyWord_key (by decide) (hname _))
    cases hsame.length_eq

/-- The edit for another key column leaves a reference alone. -/
lemma keyEdit_run_reference (hb : b.Named) {other : String} (hkey : IsKeyName key)
    (hother : IsKeyName other) (hne : other ≠ key) :
    (b.keyEdit other).run (b.reference key).toList = (b.reference key).toList := by
  have hword := keyWord_reference hb hother
  have hdiffer : ¬ SameFolded key.toList other.toList := fun hsame =>
    hne (String.toList_inj.1 (hsame.eq_of_capital hkey.capital hother.capital)).symm
  rcases reference_cases hb.aliasName key with ⟨halias, href⟩ | ⟨a, ha, halias, href⟩
  · rw [href]
    have hkeeps : (b.keyEdit other).Keeps [] (key.toList ++ []) :=
      keyEdit_keeps hb hother hkey.isWordText hkey.toList_ne_nil (fun _ => hdiffer)
        (fun h => absurd halias h) rfl (keeps_nil hword _)
    rwa [append_nil] at hkeeps
  · rw [href]
    have haliased : b.aliasName ≠ "" := by
      intro hnone
      rw [hnone] at halias
      cases halias
    have hletter := isWordText_alias ha
    refine keeps_word hword (w := [a]) hletter ?_
      (keeps_between hword (by decide) (keyEdit_keeps_name hb haliased hother hkey _))
    rw [Option.eq_none_iff_forall_ne_some]
    intro after hfound
    have hafter := ((afterWord?_eq_some_iff hword.wholeWord).1 hfound).2.1
    rcases reference_cases hb.aliasName other with ⟨hnone, -⟩ | ⟨a', ha', -, hotherRef⟩
    · exact haliased hnone
    · rw [keyEdit, hotherRef] at hfound
      obtain ⟨-, k, hk, hsame⟩ := dotted_found ha' hother hletter (by simp) hfound
      have hparts : key.toList ++ [] = k ++ after := by
        rw [append_nil]
        exact (cons.inj hk).2
      obtain ⟨rfl, -⟩ := word_unique hparts hkey.isWordText (hsame.isWordText hother.namePart) rfl
        hafter
      exact hdiffer hsame

/-- The edit of a key writes its path for its reference. -/
lemma keyEdit_run_own (hb : b.Named) (hkey : IsKeyName key) :
    (b.keyEdit key).run (b.reference key).toList = (b.path key).toList := by
  have hword := (keyWord_reference hb hkey).wholeWord
  have hfound : afterWord? (b.keyEdit key).word [] ((b.reference key).toList ++ []) = some [] :=
    (afterWord?_eq_some_iff hword).2 ⟨rfl, rfl, _, rfl, rfl⟩
  have haccept : (b.keyEdit key).accept [] [] := by
    unfold keyEdit
    dsimp only
    rw [show unprefixed [] [] = true from rfl, show renames [] = false from rfl, Bool.not_false,
      Bool.or_true, Bool.and_self]
  have hrun : (b.keyEdit key).run ((b.reference key).toList ++ []) = _ :=
    substituteFrom_found hword hfound
  rwa [haccept, if_pos rfl, substituteFrom_nil hword, append_nil, append_nil] at hrun

/-- A binding writes the path of a key column for a reference to it. -/
lemma apply_reference (hb : b.Named) (hstyle : b.style ≠ .plain) (hkey : key ∈ b.keys) :
    b.apply (b.reference key).toList = (b.path key).toList := by
  have hname := hb.keys key hkey
  have hpath := isKeyPath_path hb hstyle hkey
  have hkept (k : String) (hk : IsKeyName k) : (b.keyEdit k).run (b.path key).toList = _ :=
    (passesOver_keyEdit hb hk hpath).run_eq (keyWord_reference hb hk)
  -- the reference stays until its key column comes, and the path stays from then on
  have hfold : ∀ keys : List String, (∀ k ∈ keys, IsKeyName k) → key ∈ keys →
      (keys.map b.keyEdit).foldl (fun s e => e.run s) (b.reference key).toList =
        (b.path key).toList := by
    intro keys
    induction keys with
    | nil => exact fun _ hmem => absurd hmem not_mem_nil
    | cons k keys ih =>
      intro hkeys hmem
      obtain ⟨hk, hrest⟩ := forall_mem_cons.1 hkeys
      rw [map_cons, foldl_cons]
      by_cases heq : k = key
      · rw [heq, keyEdit_run_own hb hname]
        exact foldl_fixed (forall_mem_map.2 fun k' hk' => hkept k' (hrest k' hk'))
      · rw [keyEdit_run_reference hb hname hk heq]
        exact ih hrest ((mem_cons.1 hmem).resolve_left fun h => heq h.symm)
  have hlone : b.loneEdits.foldl (fun s e => e.run s) (b.reference key).toList =
      (b.reference key).toList := by
    unfold loneEdits
    split
    · exact loneEdit_run_reference b hb _ hname
    · rfl
  rw [apply_eq, edits, if_neg hstyle, foldl_append, hlone]
  exact hfold b.keys hb.keys hkey

/-! ### References and paths of the other source -/

/-- A binding leaves the references of another alias alone. -/
lemma apply_other (hb : b.Named) {a x : Char} (halias : b.aliasName.toList = [a])
    (hx : x = 'o' ∨ x = 'i') (hdiffer : ¬ SameFolded [x] [a]) (hname : IsKeyName name) :
    b.apply (x :: '.' :: name.toList) = x :: '.' :: name.toList := by
  have hword : IsWordText [x] := isWordText_alias hx
  have hdot : startsWord ('.' :: name.toList) = false := (by decide : isWord '.' = false)
  have haliased : b.aliasName ≠ "" := by
    intro hnone
    rw [hnone] at halias
    cases halias
  rw [apply_eq]
  refine foldl_fixed fun e he => ?_
  obtain ⟨-, ⟨lone, -, rfl⟩ | ⟨key, hkey, rfl⟩⟩ := mem_edits_iff.1 he
  · refine b.loneEdit_keeps lone (w := [x]) hword (fun hsame => ?_) hdot
      (keeps_between keyWord_key (by decide) (b.loneEdit_keeps_name lone hname _))
    cases hsame.length_eq
  · have hkeyName := hb.keys key hkey
    exact keyEdit_keeps hb hkeyName (w := [x]) hword (by simp)
      (fun h => absurd h haliased) (fun _ => halias ▸ hdiffer) hdot
      (keeps_between (keyWord_reference hb hkeyName) (by decide)
        (keyEdit_keeps_name hb haliased hkeyName hname _))

/-- The edits of a binding pass over an arrow, and over a dot with many keys. -/
lemma passesOver_of_mem_edits (hb : b.Named) {path : List Char} (hpath : IsKeyPath path)
    (h : (∀ lone, b.keys ≠ [lone]) ∨
      ∃ name, IsKeyName name ∧ path = KeyPathStyle.arrow.lead.toList ++ name.toList)
    {e : WordEdit} (he : e ∈ b.edits) : e.PassesOver path := by
  obtain ⟨-, ⟨lone, hlone, rfl⟩ | ⟨key, hkey, rfl⟩⟩ := mem_edits_iff.1 he
  · rcases h with hmany | ⟨name, hname, rfl⟩
    · exact absurd hlone (hmany lone)
    · exact b.passesOver_loneEdit lone hname
  · exact passesOver_keyEdit hb (hb.keys key hkey) hpath

/-- A binding leaves a path alone that its edits pass over. -/
lemma apply_path (hb : b.Named) {path : List Char} (h : ∀ e ∈ b.edits, e.PassesOver path) :
    b.apply path = path := by
  rw [apply_eq]
  exact foldl_fixed fun e he => (h e he).run_eq (keyWord_of_mem_edits hb he)

/-- The bare word at the front of a path in dot style is taken for the only key column. -/
lemma apply_dotPath (hb : b.Named) (hstyle : b.style = .dot) (halias : b.aliasName ≠ "")
    {lone : String} (hlone : b.keys = [lone]) (hname : IsKeyName name) :
    b.apply ("key.".toList ++ name.toList) =
      "key.".toList ++ lone.toList ++ '.' :: name.toList := by
  have hloneName : IsKeyName lone := hb.keys lone (hlone ▸ mem_singleton_self lone)
  have hpath : (b.path lone).toList = "key.".toList ++ lone.toList := by
    rw [path, hstyle, String.toList_append]
    rfl
  have hedits : b.edits = [b.loneEdit lone, b.keyEdit lone] := by
    rw [edits, if_neg (by rw [hstyle]; decide), loneEdits, hlone]
    rfl
  have hdot : ∀ s, startsWord ('.' :: s) = false := fun _ => (by decide : isWord '.' = false)
  -- the bare word becomes the path of the only key column
  have hfirst : (b.loneEdit lone).run ("key.".toList ++ name.toList) =
      (b.path lone).toList ++ '.' :: name.toList := by
    have hfound : afterWord? (b.loneEdit lone).word [] ("key".toList ++ '.' :: name.toList) =
        some ('.' :: name.toList) :=
      (afterWord?_eq_some_iff keyWord_key.wholeWord).2 ⟨rfl, hdot _, _, rfl, by decide⟩
    have hrun : (b.loneEdit lone).run ("key".toList ++ '.' :: name.toList) = _ :=
      substituteFrom_found keyWord_key.wholeWord hfound
    have haccept : (b.loneEdit lone).accept [] ('.' :: name.toList) := rfl
    have hkept : (b.loneEdit lone).Keeps ("key".toList.reverse ++ []) ('.' :: name.toList) :=
      keeps_between keyWord_key (by decide) (b.loneEdit_keeps_name lone hname _)
    refine hrun.trans ?_
    rw [if_pos haccept]
    exact congrArg ((b.path lone).toList ++ ·) hkept
  -- the reference to the key column is not in what has come of it
  have hsecond : (b.keyEdit lone).Keeps [] ((b.path lone).toList ++ '.' :: name.toList) := by
    have hword := keyWord_reference hb hloneName
    obtain ⟨a, ha, haliasEq⟩ : ∃ a, (a = 'o' ∨ a = 'i') ∧ b.aliasName.toList = [a] := by
      rcases reference_cases hb.aliasName lone with ⟨hnone, -⟩ | ⟨a, ha, haliasEq, -⟩
      · exact absurd hnone halias
      · exact ⟨a, ha, haliasEq⟩
    have hlast := keyEdit_keeps_name hb halias hloneName hname
      ('.' :: (lone.toList.reverse ++ '.' :: "key".toList.reverse))
    have hmiddle : (b.keyEdit lone).Keeps ('.' :: "key".toList.reverse)
        (lone.toList ++ '.' :: name.toList) :=
      keyEdit_keeps hb hloneName hloneName.isWordText hloneName.toList_ne_nil
        (fun hnone => absurd hnone halias) (fun _ => haliasEq ▸ hloneName.not_alias ha) (hdot _)
        (keeps_between hword (by decide) hlast)
    rw [hpath]
    refine keyEdit_keeps hb hloneName (w := "key".toList) (all_eq_true.1 (by decide))
      (by decide) (fun hnone => absurd hnone halias) (fun _ hsame => ?_) (hdot _)
      (keeps_between hword (by decide) hmiddle)
    rw [haliasEq] at hsame
    cases hsame.length_eq
  rw [apply_eq, hedits, foldl_cons, foldl_cons, foldl_nil, hfirst]
  refine Eq.trans hsecond ?_
  rw [hpath]

lemma apply_primary (hb : b.Named) (halias : b.aliasName ≠ "o") (rest : List Char) :
    ∃ rest', b.apply ('o' :: '.' :: rest) = 'o' :: '.' :: rest' := by
  refine apply_induction (P := fun s => ∃ rest', s = 'o' :: '.' :: rest') ?_ ⟨rest, rfl⟩
  rintro e he s ⟨rest', rfl⟩
  have hword := keyWord_of_mem_edits hb he
  have hdot : startsWord ('.' :: rest') = false := (by decide : isWord '.' = false)
  have hletter : IsWordText ['o'] := isWordText_alias (.inl rfl)
  have hnone : afterWord? e.word [] ('o' :: '.' :: rest') = none := by
    rw [Option.eq_none_iff_forall_ne_some]
    intro after hfound
    obtain ⟨-, ⟨lone, -, rfl⟩ | ⟨key, hkey, rfl⟩⟩ := mem_edits_iff.1 he
    · cases (key_found (w := ['o']) hletter hdot hfound).2.length_eq
    · have hname := hb.keys key hkey
      rcases reference_cases hb.aliasName key with ⟨-, href⟩ | ⟨a, ha, haliasEq, href⟩
      · rw [keyEdit, href] at hfound
        obtain ⟨-, hsame⟩ := single_found (w := ['o']) hname.toList_ne_nil hname.namePart
          hletter hdot hfound
        exact hname.not_alias (.inl rfl) hsame.symm
      · rw [keyEdit, href] at hfound
        obtain ⟨hsame, -⟩ := dotted_found (w := ['o']) ha hname hletter (by simp) hfound
        rcases ha with rfl | rfl
        · exact halias (String.toList_inj.1 haliasEq)
        · exact absurd hsame (by decide)
  refine ⟨substituteFrom e.rule 0 ['.', 'o'] rest', ?_⟩
  exact (substituteFrom_unfound hnone).trans
    (congrArg ('o' :: ·) (substituteFrom_between hword.wholeWord (by decide) _ _))

lemma apply_head_ne (hb : b.Named) {s : List Char} (hs : s.head? ≠ some 'o') :
    (b.apply s).head? ≠ some 'o' := by
  refine apply_induction (P := fun s => s.head? ≠ some 'o') ?_ hs
  intro e he s hs
  have hword := (keyWord_of_mem_edits hb he).wholeWord
  have hwritten : ∀ rest, (e.written ++ rest).head? ≠ some 'o' := by
    obtain ⟨hstyle, hcases⟩ := mem_edits_iff.1 he
    have hpath : ∃ key, e.written = b.style.lead.toList ++ key := by
      rcases hcases with ⟨lone, -, rfl⟩ | ⟨key, -, rfl⟩
      · exact ⟨lone.toList, String.toList_append⟩
      · exact ⟨key.toList, String.toList_append⟩
    obtain ⟨key, hkey⟩ := hpath
    intro rest
    rw [hkey]
    cases hcase : b.style with
    | plain => exact absurd hcase hstyle
    | dot => exact (by decide : some 'k' ≠ some 'o')
    | arrow => exact (by decide : some 'K' ≠ some 'o')
  cases s with
  | nil =>
    rw [run, rule, substitute, substituteFrom_nil hword]
    exact hs
  | cons c s =>
    rw [run, rule, substitute]
    cases hfound : afterWord? e.word [] (c :: s) with
    | none =>
      rw [substituteFrom_unfound hfound]
      exact hs
    | some after =>
      obtain ⟨-, -, m, hm, hsame⟩ := (afterWord?_eq_some_iff hword).1 hfound
      rw [hm] at hfound ⊢
      rw [substituteFrom_found hword hfound]
      split
      · exact hwritten _
      · obtain _ | ⟨d, m⟩ := m
        · exact absurd (eq_nil_of_length_eq_zero hsame.length_eq.symm) hword.ne_nil
        · rw [(cons.inj hm).1] at hs
          exact hs

end KeyBinding

/-! ## The bindings of two sources -/

/-- The source has one key column, up to repetitions. -/
def Source.HasOneKey (s : Source) : Prop :=
  ∃ lone, ∀ key, key ∈ s.keyNames ↔ key = lone

namespace KeyBinding

variable {aliasName : String} {s : Source} {requested : KeyPathStyle}

/-- Collecting names without repetitions. -/
lemma foldl_distinct (names found : List String) (hfound : found.Nodup) :
    (names.foldl (fun keys key => if keys.contains key then keys else keys ++ [key]) found).Nodup ∧
      ∀ key, key ∈ names.foldl
        (fun keys key => if keys.contains key then keys else keys ++ [key]) found ↔
          key ∈ found ∨ key ∈ names := by
  induction names generalizing found with
  | nil => exact ⟨hfound, fun key => by simp⟩
  | cons name names ih =>
    rw [foldl_cons]
    by_cases hknown : found.contains name
    · rw [if_pos hknown]
      obtain ⟨hnodup, hmem⟩ := ih found hfound
      refine ⟨hnodup, fun key => (hmem key).trans ?_⟩
      have hname := contains_iff_mem.1 hknown
      rw [mem_cons]
      constructor
      · rintro (h | h)
        · exact .inl h
        · exact .inr (.inr h)
      · rintro (h | rfl | h)
        · exact .inl h
        · exact .inl hname
        · exact .inr h
    · rw [if_neg hknown]
      have hname : name ∉ found := fun h => hknown (contains_iff_mem.2 h)
      have hadded : (found ++ [name]).Nodup := nodup_append_comm.1 (nodup_cons.2 ⟨hname, hfound⟩)
      obtain ⟨hnodup, hmem⟩ := ih _ hadded
      refine ⟨hnodup, fun key => (hmem key).trans ?_⟩
      rw [mem_append, mem_singleton, mem_cons, or_assoc]

lemma mem_keys_iff {key : String} :
    key ∈ (ofSource aliasName s requested).keys ↔ key ∈ s.keyNames := by
  refine ((foldl_distinct s.keyNames [] nodup_nil).2 key).trans ?_
  simp

lemma exists_lone_iff : (∃ lone, (ofSource aliasName s requested).keys = [lone]) ↔ s.HasOneKey := by
  constructor
  · rintro ⟨lone, hlone⟩
    refine ⟨lone, fun key => ?_⟩
    have hmem := @mem_keys_iff aliasName s requested key
    rw [← hmem, hlone, mem_singleton]
  · rintro ⟨lone, hlone⟩
    have hnodup := (foldl_distinct s.keyNames [] nodup_nil).1
    refine ⟨lone, perm_singleton.1 ?_⟩
    refine (perm_ext_iff_of_nodup hnodup (pairwise_singleton _ lone)).2 fun key => ?_
    rw [mem_singleton, ← hlone]
    exact @mem_keys_iff aliasName s requested key

lemma lone_eq_iff {key : String} (hkey : key ∈ s.keyNames) :
    (ofSource aliasName s requested).keys = [key] ↔ s.HasOneKey := by
  rw [← @exists_lone_iff aliasName s requested]
  constructor
  · exact fun h => ⟨key, h⟩
  · rintro ⟨lone, hlone⟩
    have hmem := (@mem_keys_iff aliasName s requested key).2 hkey
    rw [hlone] at hmem ⊢
    rw [mem_singleton.1 hmem]

lemma style_eq_plain_iff :
    (ofSource aliasName s requested).style = .plain ↔ requested = .plain ∧ s.isTable = false := by
  unfold ofSource
  cases requested with
  | plain => cases s.isTable <;> simp
  | dot => simp
  | arrow => simp

lemma style_eq_dot_iff : (ofSource aliasName s requested).style = .dot ↔ requested = .dot := by
  unfold ofSource
  cases requested with
  | plain => cases s.isTable <;> simp
  | dot => simp
  | arrow => simp

end KeyBinding

/-- The key columns of the sources have names that cannot be mistaken. -/
def Query.HasKeyNames (q : Query) : Prop :=
  ∀ s ∈ q.sources, ∀ key ∈ s.keyNames, IsKeyName key

/-- It can be checked whether names can be mistaken. -/
instance (q : Query) : Decidable q.HasKeyNames :=
  inferInstanceAs (Decidable (∀ s ∈ q.sources, ∀ key ∈ s.keyNames, IsKeyName key))

/-! ## Clauses of two sources -/

section

variable {W : List Char → List Char → Prop}

lemma WrittenOnce.eq_nil (hW : WritesPaths W) {before t : List Char}
    (h : WrittenOnce W before [] t) : t = [] := by
  generalize hclause : ([] : List Char) = clause at h
  cases h with
  | nil before => rfl
  | keep c h => cases hclause
  | @write _ s _ ref path hwrite hbefore hafter h =>
    have hstart := hW.first _ _ hwrite s
    rw [← hclause] at hstart
    cases hstart

/-- What comes of edits that pass over all paths, after one that meets none. -/
lemma WrittenOnce.run (hW : WritesPaths W) {first rest : List WordEdit}
    (hfirst : first = [] ∨ ∃ e, first = [e]) (hword : ∀ e ∈ first ++ rest, WordEdit.KeyWord e.word)
    (hnew : ∀ e ∈ first ++ rest, ∀ ref, SameFolded ref e.word → W ref e.written)
    (hpasses : ∀ e ∈ rest, ∀ ref path, W ref path → e.PassesOver path) (clause : List Char) :
    WrittenOnce W [] clause ((first ++ rest).foldl (fun s e => e.run s) clause) := by
  rw [foldl_append]
  refine edits hW (fun e he => hword e (mem_append_right _ he)) hpasses
    (fun e he => hnew e (mem_append_right _ he)) ?_
  rcases hfirst with rfl | ⟨e, rfl⟩
  · exact refl clause
  · exact first_edit (hword e (mem_append_left _ (mem_singleton_self e)))
      (hnew e (mem_append_left _ (mem_singleton_self e))) clause

end

namespace KeyBinding

/-- The paths that one of two bindings writes. -/
def WritesEither (a b : KeyBinding) (ref path : List Char) : Prop :=
  ∃ x ∈ [a, b], x.Writes ref path

variable {a b : KeyBinding}

lemma loneEdits_cases (b : KeyBinding) : b.loneEdits = [] ∨ ∃ e, b.loneEdits = [e] := by
  unfold loneEdits
  split
  · exact .inr ⟨_, rfl⟩
  · exact .inl rfl

/-- References are written once, if there are no dots, the first source has no keys, or the second
one has not one key. -/
lemma writtenOnce_apply (ha : a.Named) (hb : b.Named)
    (h : (a.style ≠ .dot ∧ b.style ≠ .dot) ∨ a.keys = [] ∨ ∀ lone, b.keys ≠ [lone])
    (clause : List Char) : WrittenOnce (WritesEither a b) [] clause (b.apply (a.apply clause)) := by
  have hnamed : ∀ x ∈ [a, b], x.Named := forall_mem_cons.2 ⟨ha, forall_mem_singleton.2 hb⟩
  have hW : WritesPaths (WritesEither a b) := writesPaths hnamed
  have hword : ∀ e ∈ a.edits ++ b.edits, KeyWord e.word :=
    forall_mem_append.2 ⟨fun e => keyWord_of_mem_edits ha, fun e => keyWord_of_mem_edits hb⟩
  have hnew : ∀ e ∈ a.edits ++ b.edits, ∀ ref, SameFolded ref e.word →
      WritesEither a b ref e.written :=
    forall_mem_append.2 ⟨fun e he ref href => ⟨a, by simp, writes_of_mem_edits he href⟩,
      fun e he ref href => ⟨b, by simp, writes_of_mem_edits he href⟩⟩
  -- the edits for key columns pass over everything
  have hkeyEdits : ∀ x ∈ [a, b], ∀ e ∈ x.keys.map x.keyEdit, ∀ ref path,
      WritesEither a b ref path → e.PassesOver path := by
    intro x hx e he ref path hwrite
    obtain ⟨key, hkey, rfl⟩ := mem_map.1 he
    exact passesOver_keyEdit (hnamed x hx) ((hnamed x hx).keys key hkey) (hW.path _ _ hwrite)
  have hall : b.apply (a.apply clause) =
      (a.edits ++ b.edits).foldl (fun s e => e.run s) clause := by
    rw [foldl_append, ← apply_eq, ← apply_eq]
  rw [hall]
  rcases h with ⟨hadot, hbdot⟩ | hnone | hmany
  · -- all paths are arrows
    refine WrittenOnce.run hW (.inl rfl) hword hnew ?_ clause
    rintro e he ref path ⟨x, hx, hstyle, key, hkey, rfl, hwrite⟩
    have harrow : x.style = .arrow := by
      have hdots : ∀ x ∈ [a, b], x.style ≠ .dot :=
        forall_mem_cons.2 ⟨hadot, forall_mem_singleton.2 hbdot⟩
      have hdot := hdots x hx
      cases hcase : x.style with
      | plain => exact absurd hcase hstyle
      | dot => exact absurd hcase hdot
      | arrow => rfl
    have hpath := isKeyPath_path (hnamed x hx) hstyle hkey
    have hparts : (x.path key).toList = KeyPathStyle.arrow.lead.toList ++ key.toList := by
      rw [path, harrow, String.toList_append]
    have hname := (hnamed x hx).keys key hkey
    rcases mem_append.1 he with he | he
    · exact passesOver_of_mem_edits ha hpath (.inr ⟨key, hname, hparts⟩) he
    · exact passesOver_of_mem_edits hb hpath (.inr ⟨key, hname, hparts⟩) he
  · -- the first source has no edits
    have hedits : a.edits = [] := by
      rw [edits, loneEdits, hnone, map_nil, append_nil, ite_self]
    rw [hedits, nil_append] at hword hnew ⊢
    by_cases hplain : b.style = .plain
    · rw [edits, if_pos hplain]
      exact WrittenOnce.refl clause
    · rw [edits, if_neg hplain] at hword hnew ⊢
      exact WrittenOnce.run hW b.loneEdits_cases hword hnew (hkeyEdits b (by simp)) clause
  · -- only the first source has an edit for the bare word
    have hbpasses : ∀ e ∈ b.edits, ∀ ref path, WritesEither a b ref path → e.PassesOver path :=
      fun e he ref path hwrite =>
        passesOver_of_mem_edits hb (hW.path _ _ hwrite) (.inl hmany) he
    by_cases hplain : a.style = .plain
    · rw [edits, if_pos hplain, nil_append] at hword hnew ⊢
      exact WrittenOnce.run hW (.inl rfl) hword hnew hbpasses clause
    · rw [edits, if_neg hplain, append_assoc] at hword hnew ⊢
      refine WrittenOnce.run hW a.loneEdits_cases hword hnew (fun e he => ?_) clause
      rcases mem_append.1 he with he | he
      · exact hkeyEdits a (by simp) e he
      · exact hbpasses e he

/-- A reference is written once only if a key path comes of it. -/
lemma not_writtenOnce (ha : a.Named) (hb : b.Named) (halias : a.aliasName = "" ∨ b.aliasName ≠ "")
    {key : String} (hkey : IsKeyName key) {result : List Char} (hhead : result.head? = some 'k')
    (hresult : ∀ x ∈ [a, b], ∀ k ∈ x.keys, result ≠ (x.path k).toList) :
    ¬ WrittenOnce (WritesEither a b) [] (a.reference key).toList result := by
  have hnamed : ∀ x ∈ [a, b], x.Named := forall_mem_cons.2 ⟨ha, forall_mem_singleton.2 hb⟩
  have hW : WritesPaths (WritesEither a b) := writesPaths hnamed
  -- a word at the end is taken whole
  have hend : ∀ u v : List Char, u ++ v = key.toList → startsWord v = false → v = [] := by
    intro u v hparts hv
    obtain _ | ⟨c, v⟩ := v
    · rfl
    · have hword : isWord c := hkey.isWordText c (by rw [← hparts]; simp)
      exact absurd hword (Bool.eq_false_iff.1 hv)
  intro h
  generalize hclause : (a.reference key).toList = clause at h
  cases h with
  | nil before => cases hhead
  | @keep _ s t c h =>
    obtain rfl : c = 'k' := Option.some.inj hhead
    rcases reference_cases ha.aliasName key with ⟨-, href⟩ | ⟨x, hx, -, href⟩
    · have hcapital := hkey.capital 'k' (by rw [← href, hclause]; simp)
      exact absurd hcapital (by decide)
    · rw [href] at hclause
      rcases hx with rfl | rfl
      · exact absurd (cons.inj hclause).1 (by decide)
      · exact absurd (cons.inj hclause).1 (by decide)
  | @write _ s t ref path hwrite hbefore hafter h =>
    have hs : s = [] := by
      rcases reference_cases ha.aliasName key with ⟨-, href⟩ | ⟨x, hx, haliasEq, href⟩
      · exact hend ref s (by rw [← hclause, href]) hafter
      · rw [href] at hclause
        obtain _ | ⟨c, _ | ⟨d, ref⟩⟩ := ref
        · have hstart := hW.first _ _ hwrite []
          cases hstart
        · -- the alias alone is no reference
          obtain ⟨rfl, -⟩ := cons.inj hclause
          obtain ⟨y, hy, -, k, hk, -, hsame | ⟨-, hsame⟩⟩ := hwrite
          · rcases reference_cases (hnamed y hy).aliasName k with ⟨hnone, hyref⟩ | ⟨_, _, -, hyref⟩
            · have haliased : a.aliasName ≠ "" := by
                intro hnoneA
                rw [hnoneA] at haliasEq
                cases haliasEq
              rcases mem_cons.1 hy with rfl | hy
              · exact absurd hnone haliased
              · rw [mem_singleton.1 hy] at hnone
                exact absurd hnone (halias.resolve_left haliased)
            · rw [hyref] at hsame
              cases hsame.length_eq
          · cases hsame.length_eq
        · exact hend ref s (cons.inj (cons.inj hclause).2).2.symm hafter
    subst hs
    obtain ⟨x, hx, -, k, hk, rfl, -⟩ := hwrite
    rw [h.eq_nil hW, append_nil] at hresult
    exact hresult x hx k hk rfl

/-- References are written once, unless there are dots, the first source has keys and the second one
has one key. -/
lemma writtenOnce_apply_iff (ha : a.Named) (hb : b.Named) (hbalias : b.aliasName ≠ "")
    (hdots : a.style = .dot ↔ b.style = .dot) :
    (∀ clause, WrittenOnce (WritesEither a b) [] clause (b.apply (a.apply clause))) ↔
      ¬ (b.style = .dot ∧ a.keys ≠ [] ∧ ∃ lone, b.keys = [lone]) := by
  constructor
  · -- a reference to the first source is written twice
    rintro honce ⟨hbdot, hsome, lone, hlone⟩
    have hadot := hdots.2 hbdot
    obtain ⟨key, hkey⟩ := exists_mem_of_ne_nil _ hsome
    have hname := ha.keys key hkey
    have hpath : a.apply (a.reference key).toList = "key.".toList ++ key.toList := by
      rw [apply_reference ha (by rw [hadot]; decide) hkey, path, hadot, String.toList_append]
      rfl
    have hagain := honce (a.reference key).toList
    rw [hpath, apply_dotPath hb hbdot hbalias hlone hname] at hagain
    refine not_writtenOnce ha hb (.inr hbalias) hname rfl ?_ hagain
    intro x hx k hk heq
    have hdotted : ∀ x ∈ [a, b], x.style = .dot ∧ x.Named :=
      forall_mem_cons.2 ⟨⟨hadot, ha⟩, forall_mem_singleton.2 ⟨hbdot, hb⟩⟩
    obtain ⟨hdot, hnamed⟩ := hdotted x hx
    -- a key name would hold a full stop
    rw [path, hdot, String.toList_append, append_assoc] at heq
    have hfull : '.' ∈ k.toList := by
      rw [← append_cancel_left heq]
      simp
    exact absurd ((hnamed.keys k hk).capital '.' hfull) (by decide)
  · intro hnot clause
    refine writtenOnce_apply ha hb ?_ clause
    by_cases hdot : b.style = .dot
    · refine .inr ?_
      by_cases hnone : a.keys = []
      · exact .inl hnone
      · exact .inr fun lone hlone => hnot ⟨hdot, hnone, lone, hlone⟩
    · exact .inl ⟨fun hadot => hdot (hdots.1 hadot), hdot⟩

/-- Plain keys are not edited. -/
lemma apply_plain (hstyle : b.style = .plain) (clause : List Char) : b.apply clause = clause := by
  rw [apply_eq, edits, if_pos hstyle]
  rfl

/-- References to keys of two sources become the same text if they have the same key name, both
sources are aliased, both write paths, and those of the first stay. -/
lemma apply_eq_apply_iff (ha : a.Named) (hb : b.Named)
    (haalias : a.aliasName = "o" ∨ a.aliasName = "") (hbalias : b.aliasName = "i")
    (hdots : a.style = .dot ↔ b.style = .dot) {key key' : String} (hkey : key ∈ a.keys)
    (hkey' : key' ∈ b.keys) :
    b.apply (a.apply ('o' :: '.' :: key.toList)) = b.apply (a.apply ('i' :: '.' :: key'.toList)) ↔
      key = key' ∧ a.aliasName = "o" ∧ (a.style ≠ .plain ∧ b.style ≠ .plain) ∧
        ¬ (b.style = .dot ∧ b.keys = [key']) := by
  have hbletter : b.aliasName.toList = ['i'] := by rw [hbalias]; rfl
  have hjoined : (b.apply (a.apply ('i' :: '.' :: key'.toList))).head? ≠ some 'o' :=
    apply_head_ne hb (apply_head_ne ha (by decide : some 'i' ≠ some 'o'))
  rcases haalias with haalias | haalias
  · have haletter : a.aliasName.toList = ['o'] := by rw [haalias]; rfl
    have hjoinedLeft : a.apply ('i' :: '.' :: key'.toList) = 'i' :: '.' :: key'.toList :=
      apply_other ha haletter (.inr rfl) (by decide) (hb.keys key' hkey')
    by_cases haplain : a.style = .plain
    · -- the reference to the first source stays
      have hprimary : b.apply (a.apply ('o' :: '.' :: key.toList)) = 'o' :: '.' :: key.toList := by
        rw [apply_plain haplain]
        exact apply_other hb hbletter (.inl rfl) (by decide) (ha.keys key hkey)
      refine iff_of_false (fun heq => ?_) fun hright => hright.2.2.1.1 haplain
      rw [← heq, hprimary] at hjoined
      exact hjoined rfl
    · have hreference : (a.reference key).toList = 'o' :: '.' :: key.toList := by
        unfold reference
        rw [haalias, if_neg (by decide), String.toList_append, String.toList_append]
        rfl
      have hprimary : a.apply ('o' :: '.' :: key.toList) = a.style.lead.toList ++ key.toList := by
        rw [← hreference, apply_reference ha haplain hkey, path, String.toList_append]
      rw [hprimary, hjoinedLeft]
      by_cases hbplain : b.style = .plain
      · -- the reference to the second source stays
        refine iff_of_false (fun heq => ?_) fun hright => hright.2.2.1.2 hbplain
        rw [apply_plain hbplain, apply_plain hbplain] at heq
        cases hcase : a.style with
        | plain => exact haplain hcase
        | dot =>
          rw [hcase] at heq
          exact absurd (cons.inj heq).1 (by decide)
        | arrow =>
          rw [hcase] at heq
          exact absurd (cons.inj heq).1 (by decide)
      · have hsame : a.style = b.style := by
          revert haplain hbplain hdots
          cases a.style <;> cases b.style <;> simp
        have hreference' : (b.reference key').toList = 'i' :: '.' :: key'.toList := by
          unfold reference
          rw [hbalias, if_neg (by decide), String.toList_append, String.toList_append]
          rfl
        have hjoinedRight : b.apply ('i' :: '.' :: key'.toList) =
            b.style.lead.toList ++ key'.toList := by
          rw [← hreference', apply_reference hb hbplain hkey', path, String.toList_append]
        rw [hjoinedRight, hsame]
        by_cases hlone : b.style = .dot ∧ b.keys = [key']
        · -- the path of the first source is written into
          refine iff_of_false (fun heq => ?_) fun hright => hright.2.2.2 hlone
          have hdotted := apply_dotPath hb hlone.1 (by rw [hbalias]; decide) hlone.2
            (ha.keys key hkey)
          rw [hlone.1] at heq
          have hlength := congrArg length (hdotted.symm.trans heq)
          simp only [length_append, length_cons] at hlength
          have hlead : KeyPathStyle.dot.lead.toList.length = "key.".toList.length := rfl
          omega
        · have hpath : IsKeyPath (b.style.lead.toList ++ key.toList) :=
            ⟨b.style, key, hbplain, ha.keys key hkey, rfl⟩
          have hkept : b.apply (b.style.lead.toList ++ key.toList) =
              b.style.lead.toList ++ key.toList := by
            refine apply_path hb fun e he => passesOver_of_mem_edits hb hpath ?_ he
            by_cases hdot : b.style = .dot
            · refine .inl fun lone hkeys => hlone ⟨hdot, ?_⟩
              rw [hkeys] at hkey' ⊢
              rw [mem_singleton.1 hkey']
            · refine .inr ⟨key, ha.keys key hkey, ?_⟩
              cases hcase : b.style with
              | plain => exact absurd hcase hbplain
              | dot => exact absurd hcase hdot
              | arrow => rfl
          rw [hkept, append_right_inj, String.toList_inj]
          constructor
          · intro heq
            exact ⟨heq, haalias, ⟨hbplain, hbplain⟩, hlone⟩
          · exact fun hright => hright.1
  · -- without an alias the reference to the first source keeps its front
    refine iff_of_false (fun heq => ?_) fun hright => ?_
    · obtain ⟨rest, hrest⟩ := apply_primary ha (by rw [haalias]; decide) key.toList
      obtain ⟨rest', hrest'⟩ := apply_primary hb (by rw [hbalias]; decide) rest
      rw [← heq, hrest, hrest'] at hjoined
      exact hjoined rfl
    · rw [haalias] at hright
      exact absurd hright.2.1 (by decide)

end KeyBinding

/-! ## Queries -/

section

variable {q : Query} {left right : Source}

/-- The bindings of a query with two sources. -/
lemma KeyBinding.ofQuery_pair (hsources : q.sources = [left, right]) (requested : KeyPathStyle) :
    ofQuery q requested =
      [ofSource (if q.primaryAlias then primaryAlias else "") left requested,
        ofSource joinAlias right requested] := by
  unfold ofQuery
  rw [hsources]
  rfl

/-- The binding of a source has its key names. -/
lemma KeyBinding.named_ofSource (hnames : q.HasKeyNames) {s : Source} (hs : s ∈ q.sources)
    {aliasName : String} (halias : aliasName = "" ∨ aliasName = "o" ∨ aliasName = "i")
    (requested : KeyPathStyle) : (ofSource aliasName s requested).Named :=
  ⟨halias, fun key hkey => hnames s hs key (mem_keys_iff.1 hkey)⟩

lemma toList_styleKeys_pair (a b : KeyBinding) (clause : String) :
    (styleKeys [a, b] clause).toList = b.apply (a.apply clause.toList) := by
  rw [styleKeys, String.toList_ofList]
  rfl

end

/-- Key styling over two sources writes each reference of every clause at most once, unless dot
style is asked for, the first source has key columns and the second one has one: then the bare word
at the front of a path of the first source is taken for a reference to the second one. And it never
makes references to keys of the two sources the same text, unless these have the same name, the
first source is aliased, both are written as paths, and the paths of the first source stay. -/
theorem styleKeys_written_once_iff (q : Query) (requested : KeyPathStyle) (left right : Source)
    (hsources : q.sources = [left, right]) (hnames : q.HasKeyNames) :
    ((∀ clause : String, WrittenOnce
        (fun ref path => ∃ b ∈ KeyBinding.ofQuery q requested, b.Writes ref path) []
        clause.toList (styleKeys (KeyBinding.ofQuery q requested) clause).toList) ↔
      ¬ (requested = .dot ∧ left.keyNames ≠ [] ∧ right.HasOneKey)) ∧
    ∀ key ∈ left.keyNames, ∀ key' ∈ right.keyNames,
      (styleKeys (KeyBinding.ofQuery q requested) (primaryAlias ++ "." ++ key) =
          styleKeys (KeyBinding.ofQuery q requested) (joinAlias ++ "." ++ key') ↔
        key = key' ∧ q.primaryAlias = true ∧
          (requested ≠ .plain ∨ left.isTable = true ∧ right.isTable = true) ∧
          ¬ (requested = .dot ∧ right.HasOneKey)) := by
  have ha : (KeyBinding.ofSource (if q.primaryAlias then primaryAlias else "") left
      requested).Named := by
    refine KeyBinding.named_ofSource hnames (by rw [hsources]; simp) ?_ requested
    split
    · exact .inr (.inl rfl)
    · exact .inl rfl
  have hb : (KeyBinding.ofSource joinAlias right requested).Named :=
    KeyBinding.named_ofSource hnames (by rw [hsources]; simp) (.inr (.inr rfl)) requested
  have hdots : (KeyBinding.ofSource (if q.primaryAlias then primaryAlias else "") left
      requested).style = .dot ↔ (KeyBinding.ofSource joinAlias right requested).style = .dot :=
    KeyBinding.style_eq_dot_iff.trans KeyBinding.style_eq_dot_iff.symm
  rw [KeyBinding.ofQuery_pair hsources]
  constructor
  · have hnone : (KeyBinding.ofSource (if q.primaryAlias then primaryAlias else "") left
        requested).keys = [] ↔ left.keyNames = [] := by
      simp only [eq_nil_iff_forall_not_mem, KeyBinding.mem_keys_iff]
    have honce := KeyBinding.writtenOnce_apply_iff ha hb (by decide : joinAlias ≠ "") hdots
    rw [KeyBinding.style_eq_dot_iff, ne_eq, hnone, KeyBinding.exists_lone_iff] at honce
    rw [← honce]
    constructor
    · intro h clause
      have hclause := h (String.ofList clause)
      rwa [toList_styleKeys_pair, String.toList_ofList] at hclause
    · intro h clause
      rw [toList_styleKeys_pair]
      exact h clause.toList
  · intro key hkey key' hkey'
    have hprimary : (primaryAlias ++ "." ++ key).toList = 'o' :: '.' :: key.toList := by
      rw [String.toList_append, String.toList_append]
      rfl
    have hjoined : (joinAlias ++ "." ++ key').toList = 'i' :: '.' :: key'.toList := by
      rw [String.toList_append, String.toList_append]
      rfl
    have halias : (if q.primaryAlias then primaryAlias else "") = "o" ∨
        (if q.primaryAlias then primaryAlias else "") = "" := by
      split
      · exact .inl rfl
      · exact .inr rfl
    rw [← String.toList_inj, toList_styleKeys_pair, toList_styleKeys_pair, hprimary, hjoined,
      KeyBinding.apply_eq_apply_iff ha hb halias rfl hdots (KeyBinding.mem_keys_iff.2 hkey)
        (KeyBinding.mem_keys_iff.2 hkey'),
      KeyBinding.lone_eq_iff hkey', KeyBinding.style_eq_dot_iff, ne_eq, ne_eq,
      KeyBinding.style_eq_plain_iff, KeyBinding.style_eq_plain_iff]
    have haliased : (if q.primaryAlias then primaryAlias else "") = "o" ↔
        q.primaryAlias := by
      cases q.primaryAlias with
      | false => exact ⟨fun h => absurd h (by decide), fun h => by cases h⟩
      | true => exact ⟨fun _ => rfl, fun _ => rfl⟩
    have hstyled : (¬ (requested = .plain ∧ left.isTable = false) ∧
        ¬ (requested = .plain ∧ right.isTable = false)) ↔
          (requested ≠ .plain ∨ left.isTable ∧ right.isTable) := by
      by_cases hplain : requested = .plain
      · simp [hplain]
      · simp [hplain]
    rw [hstyled]
    exact and_congr_right fun _ => and_congr_left fun _ => haliased

/-- A stream with one key column. -/
def keyedStream (typeName key : String) : Source :=
  { typeName, columns := [{ name := key, type := .unknown, keyOrder := some 0 }] }

/-- A join of two streams with one key column each, on these columns. -/
def keyedJoin : Query :=
  Query.Draft.build
    { sources := [keyedStream "A" "Id", keyedStream "B" "Ref"]
      join := some
        { params := [⟨"x", .unknown⟩, ⟨"y", .unknown⟩]
          body := .binary .equal (.member (.param ⟨"x", .unknown⟩) "Id" .unknown false)
            (.member (.param ⟨"y", .unknown⟩) "Ref" .unknown false) } } 0

/-- In dot style the key column of the first stream is written twice. -/
theorem styleKeys_written_once_keyedJoin :
    keyedJoin.sources = [keyedStream "A" "Id", keyedStream "B" "Ref"] ∧ keyedJoin.HasKeyNames ∧
    styleKeys (KeyBinding.ofQuery keyedJoin .dot) "(o.ID = i.REF)" = "(key.REF.ID = key.REF)" ∧
    (({} : Compiler).create ⟨0⟩ keyedJoin { name := "c", options := { keyPath := .dot } }
      (Memo.start none)).1 =
        .ok ("CREATE STREAM IF NOT EXISTS c WITH (KAFKA_TOPIC='c', KEY_FORMAT='AVRO', " ++
          "VALUE_FORMAT='AVRO') AS\nSELECT *\nFROM A o JOIN B i WITHIN 300 SECONDS " ++
          "ON (key.REF.ID = key.REF)\nEMIT CHANGES;") ∧
    ¬ ∀ clause : String, WrittenOnce
        (fun ref path => ∃ b ∈ KeyBinding.ofQuery keyedJoin .dot, b.Writes ref path) []
        clause.toList (styleKeys (KeyBinding.ofQuery keyedJoin .dot) clause).toList := by
  have hsources : keyedJoin.sources = [keyedStream "A" "Id", keyedStream "B" "Ref"] := rfl
  have hnames : keyedJoin.HasKeyNames := by decide +kernel
  have hleft : (keyedStream "A" "Id").keyNames = ["ID"] := by decide +kernel
  have hright : (keyedStream "B" "Ref").keyNames = ["REF"] := by decide +kernel
  refine ⟨hsources, hnames, by decide +kernel, by decide +kernel, fun honce => ?_⟩
  refine (styleKeys_written_once_iff keyedJoin .dot _ _ hsources hnames).1.1 honce ⟨rfl, ?_, ?_⟩
  · rw [hleft]
    decide
  · refine ⟨"REF", fun key => ?_⟩
    rw [hright, mem_singleton]

end StreamQuery
