import StreamQuery.Proofs.WholeWords

/-!
# Key paths are written once

Key columns become key paths by one edit after another, and a later edit sees the paths that the
earlier ones have written.  `WrittenOnce` says what comes of a clause if it leaves them alone: some
of its references have been replaced by their key paths, and nothing else has changed.
`WrittenOnce.edit` says what one edit preserves.  Every edit for a key column passes over every key
path (`passesOver_keyEdit`), and the edit for the bare word `KEY` passes over arrows
(`passesOver_loneEdit`), but not over dots.
-/

namespace StreamQuery

open Text List

variable {path : List Char} {style : KeyPathStyle} {W : List Char → List Char → Prop}

/-! ## Names and paths -/

/-- A name of a key column in capitals, other than `KEY` and the aliases. -/
def IsKeyName (key : String) : Prop :=
  key ≠ "" ∧ key.toList.all isCapital = true ∧ key ∉ ["KEY", "O", "I"]

/-- It can be checked whether a name cannot be mistaken. -/
instance (key : String) : Decidable (IsKeyName key) :=
  inferInstanceAs (Decidable (key ≠ "" ∧ key.toList.all isCapital = true ∧ key ∉ ["KEY", "O", "I"]))

namespace IsKeyName

variable {key : String} (h : IsKeyName key)

include h

lemma capital : ∀ c ∈ key.toList, isCapital c :=
  all_eq_true.1 h.2.1

lemma namePart : ∀ c ∈ key.toList, isNamePart c :=
  fun c hc => isNamePart_of_isCapital (h.capital c hc)

lemma isWordText : IsWordText key.toList :=
  fun c hc => isWord_of_isNamePart (h.namePart c hc)

lemma toList_ne_nil : key.toList ≠ [] := by
  intro hnil
  exact h.1 (String.toList_eq_nil_iff.1 hnil)

lemma not_sameFolded {name : String} (hname : name ∈ ["KEY", "O", "I"]) :
    ¬ SameFolded key.toList name.toList := by
  intro hsame
  have hcapital : ∀ c ∈ name.toList, isCapital c := by
    simp only [mem_cons, not_mem_nil, or_false] at hname
    rcases hname with rfl | rfl | rfl
    · exact all_eq_true.1 (by decide)
    · exact all_eq_true.1 (by decide)
    · exact all_eq_true.1 (by decide)
  have heq := hsame.eq_of_capital h.capital hcapital
  rw [String.toList_inj.1 heq] at h
  exact h.2.2 hname

lemma not_alias {a : Char} (ha : a = 'o' ∨ a = 'i') : ¬ SameFolded key.toList [a] := by
  intro hsame
  rcases ha with rfl | rfl
  · exact h.not_sameFolded (by decide : "O" ∈ ["KEY", "O", "I"]) (hsame.trans rfl)
  · exact h.not_sameFolded (by decide : "I" ∈ ["KEY", "O", "I"]) (hsame.trans rfl)

end IsKeyName

/-- A key path in arrow or dot style. -/
def IsKeyPath (path : List Char) : Prop :=
  ∃ style key, style ≠ KeyPathStyle.plain ∧ IsKeyName key ∧
    path = style.lead.toList ++ key.toList

lemma IsKeyPath.startsWord (h : IsKeyPath path) (rest : List Char) : startsWord (path ++ rest) := by
  obtain ⟨style, key, hstyle, -, rfl⟩ := h
  cases style with
  | plain => exact absurd rfl hstyle
  | dot => exact (by decide : isWord 'k')
  | arrow => exact (by decide : isWord 'K')

lemma IsKeyPath.endsWord (h : IsKeyPath path) (before : List Char) :
    Text.startsWord (path.reverse ++ before) := by
  obtain ⟨style, key, -, hkey, rfl⟩ := h
  have hne : key.toList.reverse ≠ [] := by simpa using hkey.toList_ne_nil
  rw [reverse_append, append_assoc]
  exact hkey.isWordText.reverse.startsWord hne _

/-- In front of a key stands `KEY` in any case, and no word follows it. -/
lemma KeyPathStyle.lead_word (hstyle : style ≠ .plain) :
    ∃ w, style.lead.toList = w ++ style.lead.toList.drop 3 ∧ IsWordText w ∧
      SameFolded w "KEY".toList ∧
      ∀ rest, startsWord (style.lead.toList.drop 3 ++ rest) = false := by
  cases style with
  | plain => exact absurd rfl hstyle
  | dot =>
    exact ⟨"key".toList, rfl, all_eq_true.1 (by decide), by decide,
      fun _ => (by decide : isWord '.' = false)⟩
  | arrow =>
    exact ⟨"KEY".toList, rfl, all_eq_true.1 (by decide), rfl,
      fun _ => (by decide : isWord '-' = false)⟩

/-- A key path begins with the word `KEY`, in capitals or not. -/
lemma IsKeyPath.head_word (h : IsKeyPath path) :
    ∃ w more, path = w ++ more ∧ IsWordText w ∧ SameFolded w "KEY".toList ∧
      ∀ rest, Text.startsWord (more ++ rest) = false := by
  obtain ⟨style, key, hstyle, -, rfl⟩ := h
  obtain ⟨w, hlead, hw, hsame, hmore⟩ := KeyPathStyle.lead_word hstyle
  refine ⟨w, style.lead.toList.drop 3 ++ key.toList, ?_, hw, hsame, fun rest => ?_⟩
  · rw [← append_assoc, ← hlead]
  · rw [append_assoc]
    exact hmore _

/-! ## Clauses with paths in them -/

/-- Paths are written for some references of the clause, each a whole word of it; `W` relates
references to paths.  What is before the clause is read backwards. -/
inductive WrittenOnce (W : List Char → List Char → Prop) :
    (before clause result : List Char) → Prop
  | nil (before : List Char) : WrittenOnce W before [] []
  | keep {before s t : List Char} (c : Char) (h : WrittenOnce W (c :: before) s t) :
      WrittenOnce W before (c :: s) (c :: t)
  /-- A path is written for a reference. -/
  | write {before s t ref path : List Char} (hW : W ref path)
      (hbefore : Text.startsWord before = false) (hafter : Text.startsWord s = false)
      (h : WrittenOnce W (ref.reverse ++ before) s t) :
      WrittenOnce W before (ref ++ s) (path ++ t)

/-- References begin and end with word characters, and paths are written for them. -/
structure WritesPaths (W : List Char → List Char → Prop) : Prop where
  first : ∀ ref path, W ref path → ∀ rest, Text.startsWord (ref ++ rest) = true
  last : ∀ ref path, W ref path → ∀ before, Text.startsWord (ref.reverse ++ before) = true
  path : ∀ ref path, W ref path → IsKeyPath path

namespace WrittenOnce

variable {W W' : List Char → List Char → Prop} {before s t : List Char}

variable {m : List Char}

/-- A text as it is has been written once. -/
lemma refl (s : List Char) : WrittenOnce W before s s := by
  induction s generalizing before with
  | nil => exact .nil before
  | cons c s ih => exact .keep c ih

lemma keepAll (h : WrittenOnce W (m.reverse ++ before) s t) :
    WrittenOnce W before (m ++ s) (m ++ t) := by
  induction m generalizing before with
  | nil => exact h
  | cons c m ih =>
    refine .keep c (ih ?_)
    rwa [reverse_cons, append_assoc] at h

/-- Writing paths keeps whether a word comes first. -/
lemma startsWord_eq (hW : WritesPaths W) (h : WrittenOnce W before s t) :
    startsWord t = startsWord s := by
  cases h with
  | nil before => rfl
  | keep c h => rfl
  | write hwrite hbefore hafter h =>
    rw [hW.first _ _ hwrite, (hW.path _ _ hwrite).startsWord]

/-- Inside of a word, a character has been kept. -/
lemma kept_char {c : Char} (hbefore : startsWord before) (h : WrittenOnce W before s (c :: t)) :
    ∃ s', s = c :: s' ∧ WrittenOnce W (c :: before) s' t := by
  generalize hresult : c :: t = result at h
  cases h with
  | nil before => cases hresult
  | keep d h =>
    obtain ⟨rfl, rfl⟩ := cons.inj hresult
    exact ⟨_, rfl, h⟩
  | write hwrite hfree hafter h =>
    rw [hbefore] at hfree
    cases hfree

/-- Word characters that follow one of the clause have been kept. -/
lemma kept_word (hm : IsWordText m) (hbefore : startsWord before)
    (h : WrittenOnce W before s (m ++ t)) :
    ∃ s', s = m ++ s' ∧ WrittenOnce W (m.reverse ++ before) s' t := by
  induction m generalizing before s with
  | nil => exact ⟨s, rfl, h⟩
  | cons c m ih =>
    obtain ⟨rest, rfl, hrest⟩ := h.kept_char hbefore
    have hstart : startsWord (c :: before) := hm c (mem_cons_self ..)
    obtain ⟨s', rfl, hs'⟩ := ih (forall_mem_cons.1 hm).2 hstart hrest
    refine ⟨s', rfl, ?_⟩
    rwa [reverse_cons, append_assoc]

/-- A word of the result that is not `KEY` has been kept. -/
lemma kept_name (hW : WritesPaths W) (hm : IsWordText m) (hne : m ≠ [])
    (hkey : ¬ SameFolded m "KEY".toList) (hrest : startsWord t = false)
    (h : WrittenOnce W before s (m ++ t)) :
    ∃ s', s = m ++ s' ∧ WrittenOnce W (m.reverse ++ before) s' t := by
  obtain _ | ⟨c, m⟩ := m
  · exact absurd rfl hne
  generalize hresult : c :: m ++ t = result at h
  cases h with
  | nil before => cases hresult
  | keep d h =>
    obtain ⟨rfl, rfl⟩ := cons.inj hresult
    have hstart : startsWord (c :: before) := hm c (mem_cons_self ..)
    obtain ⟨s', rfl, hs'⟩ := h.kept_word (forall_mem_cons.1 hm).2 hstart
    refine ⟨s', rfl, ?_⟩
    rwa [reverse_cons, append_assoc]
  | write hwrite hfree hafter h =>
    -- a path would begin with the word
    obtain ⟨w, more, rfl, hw, hsame, hmore⟩ := (hW.path _ _ hwrite).head_word
    rw [append_assoc] at hresult
    obtain ⟨rfl, -⟩ := word_unique hresult hm hw hrest (hmore _)
    exact absurd hsame hkey

end WrittenOnce

/-! ## One edit -/

/-- An edit that writes a text for a whole word wherever it is accepted. -/
structure WordEdit where
  word : List Char
  written : List Char
  accept : List Char → List Char → Bool

namespace WordEdit

variable {w : List Char}

/-- The rule of an edit. -/
def rule (e : WordEdit) : Rule :=
  wordRule e.word e.written e.accept

/-- The edit of a text. -/
def run (e : WordEdit) (s : List Char) : List Char :=
  substitute e.rule s

lemma foldl_fixed {es : List WordEdit} {s : List Char} (h : ∀ e ∈ es, e.run s = s) :
    es.foldl (fun s e => e.run s) s = s :=
  foldlRecOn (motive := (· = s)) es _ rfl fun t ht e he => by rw [ht, h e he]

/-- The edit leaves a path alone. -/
def PassesOver (e : WordEdit) (path : List Char) : Prop :=
  ∀ before rest, startsWord before = false → startsWord rest = false →
    substituteFrom e.rule 0 before (path ++ rest) =
      path ++ substituteFrom e.rule 0 (path.reverse ++ before) rest

/-- The words that are looked for: a name, or a key name behind an alias. -/
inductive KeyWord : List Char → Prop
  | single {w : List Char} (hne : w ≠ []) (hw : ∀ c ∈ w, isNamePart c = true) : KeyWord w
  | dotted {a : Char} {key : String} (ha : a = 'o' ∨ a = 'i') (hkey : IsKeyName key) :
      KeyWord (a :: '.' :: key.toList)

lemma KeyWord.wholeWord (h : KeyWord w) : WholeWord w := by
  have hfirst : ∀ u : List Char, u ≠ [] → (∀ c ∈ u, isNamePart c) →
      u.head?.any isNamePart := by
    intro u hne hu
    cases u with
    | nil => exact absurd rfl hne
    | cons c u => exact hu c (mem_cons_self ..)
  have hlast : ∀ u before : List Char, u ≠ [] → (∀ c ∈ u, isNamePart c) →
      (u.reverse ++ before).head?.any isNamePart := by
    intro u before hne hu
    have hrev : u.reverse ≠ [] := by simpa using hne
    have hhead := hfirst u.reverse hrev fun c hc => hu c (mem_reverse.1 hc)
    cases hcase : u.reverse with
    | nil => exact absurd hcase hrev
    | cons c v =>
      rw [hcase] at hhead
      exact hhead
  cases h with
  | single hne hw => exact ⟨hfirst w hne hw, by simpa using hlast w [] hne hw⟩
  | @dotted a key ha hkey =>
    refine ⟨?_, ?_⟩
    · rcases ha with rfl | rfl
      · exact (by decide : isNamePart 'o')
      · exact (by decide : isNamePart 'i')
    · rw [reverse_cons, reverse_cons, append_assoc]
      exact hlast key.toList _ hkey.toList_ne_nil hkey.namePart

/-- Where a name is found, it is found as the run of word characters there. -/
lemma single_found {word before rest after : List Char} (hne : word ≠ [])
    (hword : ∀ c ∈ word, isNamePart c) (hw : IsWordText w) (hrest : startsWord rest = false)
    (h : afterWord? word before (w ++ rest) = some after) : after = rest ∧ SameFolded w word := by
  obtain ⟨-, hafter, m, hm, hsame⟩ :=
    (afterWord?_eq_some_iff (KeyWord.single hne hword).wholeWord).1 h
  obtain ⟨rfl, rfl⟩ := word_unique hm.symm (hsame.isWordText hword) hw hafter hrest
  exact ⟨rfl, hsame⟩

/-- Where a key name behind an alias is found, the run there is the alias. -/
lemma dotted_found {a : Char} {key : String} (ha : a = 'o' ∨ a = 'i') (hkey : IsKeyName key)
    {before rest after : List Char} (hw : IsWordText w) (hne : w ≠ [])
    (h : afterWord? (a :: '.' :: key.toList) before (w ++ rest) = some after) :
    SameFolded w [a] ∧ ∃ k, rest = '.' :: (k ++ after) ∧ SameFolded k key.toList := by
  obtain ⟨-, -, m, hm, hsame⟩ := (afterWord?_eq_some_iff (KeyWord.dotted ha hkey).wholeWord).1 h
  obtain _ | ⟨a', _ | ⟨dot, k⟩⟩ := m
  · cases hsame.length_eq
  · cases hsame.length_eq
  · obtain ⟨hfirst, hlater⟩ := cons.inj hsame
    obtain ⟨hdot, hk⟩ := cons.inj hlater
    obtain rfl := eq_dot_of_fold hdot
    obtain _ | ⟨c, _ | ⟨d, w⟩⟩ := w
    · exact absurd rfl hne
    · obtain ⟨rfl, rfl⟩ := cons.inj hm
      exact ⟨congrArg (· :: []) hfirst, k, rfl, hk⟩
    · -- a longer run would hold the full stop
      obtain ⟨rfl, -⟩ := cons.inj (cons.inj hm).2
      exact absurd (hw '.' (by simp)) (by decide)

end WordEdit

/-- A word that is found at a kept character consists of kept characters. -/
lemma WrittenOnce.kept_found (hW : WritesPaths W) {word : List Char} (hword : WordEdit.KeyWord word)
    {before s t m after : List Char} {c : Char} (h : WrittenOnce W (c :: before) s t)
    (hm : c :: t = m ++ after) (hsame : SameFolded m word) (hafter : startsWord after = false) :
    ∃ s', c :: s = m ++ s' ∧ WrittenOnce W (m.reverse ++ before) s' after := by
  obtain _ | ⟨d, m⟩ := m
  · have hstart := hsame.startsWord hword.wholeWord.first after
    rw [nil_append, hafter] at hstart
    cases hstart
  obtain ⟨rfl, rfl⟩ := cons.inj hm
  have hc : startsWord (c :: before) :=
    hsame.startsWord hword.wholeWord.first before
  cases hword with
  | single hne hw =>
    have hrun : IsWordText m := fun x hx => hsame.isWordText hw x (mem_cons_of_mem _ hx)
    obtain ⟨s', rfl, hs'⟩ := h.kept_word hrun hc
    refine ⟨s', rfl, ?_⟩
    rwa [reverse_cons, append_assoc]
  | @dotted a key ha hkey =>
    obtain _ | ⟨dot, k⟩ := m
    · cases hsame.length_eq
    obtain ⟨hdot, hk⟩ := cons.inj (cons.inj hsame).2
    have hksame : SameFolded k key.toList := hk
    obtain rfl := eq_dot_of_fold hdot
    obtain ⟨rest, rfl, hrest⟩ := h.kept_char hc
    have hne : k ≠ [] := by
      rintro rfl
      exact hkey.toList_ne_nil (eq_nil_of_length_eq_zero hksame.length_eq.symm)
    obtain ⟨s', rfl, hs'⟩ := hrest.kept_name hW (hksame.isWordText hkey.namePart) hne
      (fun hkeyWord => hkey.not_sameFolded (by decide) (hksame.symm.trans hkeyWord)) hafter
    refine ⟨s', rfl, ?_⟩
    simpa using hs'

/-- An edit that passes over paths writes them for references only. -/
theorem WrittenOnce.edit {W W' : List Char → List Char → Prop} {e : WordEdit}
    (hkeyWord : WordEdit.KeyWord e.word) (hW : WritesPaths W)
    (hmono : ∀ ref path, W ref path → W' ref path)
    (hpasses : ∀ ref path, W ref path → e.PassesOver path)
    (hnew : ∀ ref, SameFolded ref e.word → W' ref e.written) {before s t : List Char}
    (h : WrittenOnce W before s t) {current : List Char}
    (hcurrent : startsWord current = startsWord before) :
    WrittenOnce W' before s (substituteFrom e.rule 0 current t) := by
  have hwhole := hkeyWord.wholeWord
  induction hn : t.length using Nat.strongRecOn generalizing before s t current with
  | _ n ih =>
    cases h with
    | nil before =>
      rw [WordEdit.rule, substituteFrom_nil hwhole]
      exact .nil before
    | @write _ s t ref path hwrite hbefore hafter h =>
      have hpath := hW.path _ _ hwrite
      have hends : startsWord (path.reverse ++ current) = startsWord (ref.reverse ++ before) := by
        rw [hpath.endsWord, hW.last _ _ hwrite]
      have hlength : t.length < n := by
        have hne : path ≠ [] := by
          rintro rfl
          have hnil := hpath.startsWord []
          cases hnil
        have hpos := length_pos_iff.2 hne
        rw [length_append] at hn
        omega
      rw [hpasses _ _ hwrite current t (hcurrent.trans hbefore) ((h.startsWord_eq hW).trans hafter)]
      exact .write (hmono _ _ hwrite) hbefore hafter (ih t.length hlength h hends rfl)
    | @keep _ s t c h =>
      cases hfound : afterWord? e.word current (c :: t) with
      | none =>
        rw [WordEdit.rule, substituteFrom_unfound hfound]
        exact .keep c (ih t.length (by rw [← hn, length_cons]; omega) h rfl rfl)
      | some after =>
        obtain ⟨hfree, hafter, m, hm, hsame⟩ := (afterWord?_eq_some_iff hwhole).1 hfound
        -- the word that has been found consists of characters of the clause
        obtain ⟨s', hs, hrest⟩ := h.kept_found hW hkeyWord hm hsame hafter
        have hlength : after.length < n := by
          have hpos := length_pos_iff.2 hwhole.ne_nil
          have hsize := congrArg length hm
          rw [length_append, hsame.length_eq, hn] at hsize
          omega
        have hends : startsWord (m.reverse ++ current) = startsWord (m.reverse ++ before) := by
          rw [hsame.reverse.startsWord hwhole.last, hsame.reverse.startsWord hwhole.last]
        have hlater := ih after.length hlength hrest hends rfl
        rw [hm] at hfound ⊢
        rw [WordEdit.rule, substituteFrom_found hwhole hfound, hs]
        split
        · refine .write (hnew m hsame) (hcurrent ▸ hfree) ?_ hlater
          rw [← hrest.startsWord_eq hW, hafter]
        · exact .keepAll hlater

/-! ## The edits of a binding -/

/-- An edit passes over a path if it accepts neither its word nor its key. -/
lemma WordEdit.passesOver_of {e : WordEdit} (hword : WordEdit.KeyWord e.word)
    (hstyle : style ≠ .plain) {key : String} (hkey : IsKeyName key)
    (hlead : ∀ before rest after,
      afterWord? e.word before (style.lead.toList ++ (key.toList ++ rest)) = some after →
        after = style.lead.toList.drop 3 ++ (key.toList ++ rest) ∧ e.accept before after = false)
    (hname : ∀ before rest after, startsWord rest = false →
      afterWord? e.word (style.lead.toList.reverse ++ before) (key.toList ++ rest) = some after →
        after = rest ∧ e.accept (style.lead.toList.reverse ++ before) after = false) :
    e.PassesOver (style.lead.toList ++ key.toList) := by
  intro before rest hbefore hrest
  have hwhole := hword.wholeWord
  have hnamed : substituteFrom e.rule 0 (style.lead.toList.reverse ++ before) (key.toList ++ rest) =
      key.toList ++ substituteFrom e.rule 0
        (key.toList.reverse ++ (style.lead.toList.reverse ++ before)) rest := by
    refine substituteFrom_word hwhole hkey.isWordText fun after hfound => ?_
    obtain ⟨rfl, haccept⟩ := hname before rest after hrest hfound
    exact ⟨rfl, haccept⟩
  obtain ⟨w, hparts, hw, -, -⟩ := KeyPathStyle.lead_word hstyle
  have hled : substituteFrom e.rule 0 before (style.lead.toList ++ (key.toList ++ rest)) =
      w ++ substituteFrom e.rule 0 (w.reverse ++ before)
        (style.lead.toList.drop 3 ++ (key.toList ++ rest)) := by
    have htext : style.lead.toList ++ (key.toList ++ rest) =
        w ++ (style.lead.toList.drop 3 ++ (key.toList ++ rest)) := by
      rw [← append_assoc w, ← hparts]
    rw [htext]
    refine substituteFrom_word hwhole hw fun after hfound => ?_
    rw [← htext] at hfound
    obtain ⟨rfl, haccept⟩ := hlead before rest after hfound
    exact ⟨rfl, haccept⟩
  -- what stands between the two words is kept
  have hbetween : substituteFrom e.rule 0 (w.reverse ++ before)
      (style.lead.toList.drop 3 ++ (key.toList ++ rest)) = style.lead.toList.drop 3 ++
        substituteFrom e.rule 0 (style.lead.toList.reverse ++ before) (key.toList ++ rest) := by
    have hreverse : (style.lead.toList.drop 3).reverse ++ (w.reverse ++ before) =
        style.lead.toList.reverse ++ before := by
      rw [← append_assoc, ← reverse_append, ← hparts]
    rw [← hreverse]
    refine substituteFrom_apart hwhole ?_ _ _
    cases style with
    | plain => exact absurd rfl hstyle
    | dot => exact all_eq_true.1 (by decide)
    | arrow => exact all_eq_true.1 (by decide)
  rw [append_assoc, hled, hbetween, hnamed, ← append_assoc, ← append_assoc, ← hparts,
    append_assoc, append_assoc, reverse_append, append_assoc]

lemma unprefixed_lead (hstyle : style ≠ .plain) (before after : List Char) :
    unprefixed (style.lead.toList.reverse ++ before) after = false := by
  cases style with
  | plain => exact absurd rfl hstyle
  | dot => rfl
  | arrow => rfl

namespace KeyBinding

variable {key : String}

/-- A reference to a key column, as clauses have it. -/
def reference (b : KeyBinding) (key : String) : String :=
  if b.aliasName == "" then key else b.aliasName ++ "." ++ key

/-- The edit for the bare word `KEY`. -/
def loneEdit (b : KeyBinding) (key : String) : WordEdit where
  word := "KEY".toList
  written := (b.path key).toList
  accept before after := !(isPrefixOf ['-', '>'] after) && !renames before

/-- The edit for a key column. -/
def keyEdit (b : KeyBinding) (key : String) : WordEdit where
  word := (b.reference key).toList
  written := (b.path key).toList
  accept before after := unprefixed before after && (b.aliasName != "" || !renames before)

/-- The edit for the bare word, if there is one key column. -/
def loneEdits (b : KeyBinding) : List WordEdit :=
  match b.keys with
  | [lone] => [b.loneEdit lone]
  | _ => []

/-- The edits of a binding, one after another. -/
def edits (b : KeyBinding) : List WordEdit :=
  if b.style = .plain then [] else b.loneEdits ++ b.keys.map b.keyEdit

lemma styleKey_eq (b : KeyBinding) (clause : List Char) (key : String) :
    b.styleKey clause key = (b.keyEdit key).run clause := by
  unfold styleKey WordEdit.run WordEdit.rule keyEdit reference
  by_cases halias : (b.aliasName == "")
  · have hne : (b.aliasName != "") = false := by rw [bne, halias]; rfl
    simp only [halias, hne, if_true, Bool.false_or]
  · have hne : (b.aliasName != "") := by rw [bne, Bool.eq_false_iff.2 halias]; rfl
    simp only [halias, hne, Bool.true_or, Bool.and_true]
    rfl

/-- The edits of a binding are run one after the other. -/
lemma apply_eq (b : KeyBinding) (clause : List Char) :
    b.apply clause = b.edits.foldl (fun s e => e.run s) clause := by
  have hkeys (keys : List String) (s) : keys.foldl b.styleKey s =
      (keys.map b.keyEdit).foldl (fun s e => e.run s) s := by
    rw [foldl_map, ← funext fun s => funext (b.styleKey_eq s)]
  unfold apply edits
  by_cases hplain : b.style = .plain
  · rw [if_pos (beq_iff_eq.2 hplain), if_pos hplain]
    rfl
  · rw [if_neg (fun h => hplain (beq_iff_eq.1 h)), if_neg hplain, foldl_append, ← hkeys]
    unfold loneEdits
    rcases b.keys with _ | ⟨lone, _ | ⟨second, others⟩⟩
    · rfl
    · rfl
    · rfl

/-- A binding of a source: no alias or one of the two, and key names. -/
structure Named (b : KeyBinding) : Prop where
  aliasName : b.aliasName = "" ∨ b.aliasName = "o" ∨ b.aliasName = "i"
  keys : ∀ key ∈ b.keys, IsKeyName key

variable {b : KeyBinding}

/-- A reference is a key name, or a key name behind an alias. -/
lemma reference_cases (hb : b.aliasName = "" ∨ b.aliasName = "o" ∨ b.aliasName = "i")
    (key : String) :
    (b.aliasName = "" ∧ (b.reference key).toList = key.toList) ∨
      ∃ a, (a = 'o' ∨ a = 'i') ∧ b.aliasName.toList = [a] ∧
        (b.reference key).toList = a :: '.' :: key.toList := by
  unfold reference
  rcases hb with halias | halias | halias
  · exact .inl ⟨halias, by rw [halias, if_pos (beq_self_eq_true _)]⟩
  · refine .inr ⟨'o', .inl rfl, by rw [halias]; rfl, ?_⟩
    rw [halias, if_neg (by decide), String.toList_append, String.toList_append]
    rfl
  · refine .inr ⟨'i', .inr rfl, by rw [halias]; rfl, ?_⟩
    rw [halias, if_neg (by decide), String.toList_append, String.toList_append]
    rfl

lemma keyWord_reference (hb : b.Named) (hkey : IsKeyName key) :
    WordEdit.KeyWord (b.reference key).toList := by
  rcases b.reference_cases hb.aliasName key with ⟨-, href⟩ | ⟨a, ha, -, href⟩
  · rw [href]
    exact .single hkey.toList_ne_nil hkey.namePart
  · rw [href]
    exact .dotted ha hkey

/-- The edit for a key column passes over every key path. -/
lemma passesOver_keyEdit (hb : b.Named) (hkey : IsKeyName key) {path : List Char}
    (hpath : IsKeyPath path) : (b.keyEdit key).PassesOver path := by
  obtain ⟨style, name, hstyle, hname, rfl⟩ := hpath
  have hword := b.keyWord_reference hb hkey
  obtain ⟨w, hlead, hw, hsame, hmore⟩ := KeyPathStyle.lead_word hstyle
  have hne : w ≠ [] := by
    rintro rfl
    cases hsame.length_eq
  refine WordEdit.passesOver_of hword hstyle hname (fun before rest after hfound => ?_)
    fun before rest after hrest hfound => ⟨?_, ?_⟩
  · -- the word in front is neither a key name nor an alias
    rw [hlead, append_assoc] at hfound
    rcases b.reference_cases hb.aliasName key with ⟨-, href⟩ | ⟨a, ha, -, href⟩
    · rw [keyEdit, href] at hfound
      obtain ⟨-, hkeySame⟩ := WordEdit.single_found hkey.toList_ne_nil hkey.namePart hw (hmore _)
        hfound
      exact absurd (hkeySame.symm.trans hsame) (hkey.not_sameFolded (by decide))
    · rw [keyEdit, href] at hfound
      obtain ⟨haliasSame, -⟩ := WordEdit.dotted_found ha hkey hw hne hfound
      cases hsame.symm.length_eq.trans haliasSame.length_eq
  · rcases b.reference_cases hb.aliasName key with ⟨-, href⟩ | ⟨a, ha, -, href⟩
    · rw [keyEdit, href] at hfound
      exact (WordEdit.single_found hkey.toList_ne_nil hkey.namePart hname.isWordText hrest
        hfound).1
    · -- the key name is no alias
      rw [keyEdit, href] at hfound
      obtain ⟨haliasSame, -⟩ := WordEdit.dotted_found ha hkey hname.isWordText
        hname.toList_ne_nil hfound
      exact absurd haliasSame (hname.not_alias ha)
  · unfold keyEdit
    dsimp only
    rw [unprefixed_lead hstyle, Bool.false_and]

lemma keyWord_key : WordEdit.KeyWord "KEY".toList :=
  .single (by decide) (all_eq_true.1 (by decide))

/-- Where the bare word is found, it is the whole run there. -/
lemma key_found {w before rest after : List Char} (hw : IsWordText w)
    (hrest : startsWord rest = false)
    (h : afterWord? "KEY".toList before (w ++ rest) = some after) :
    after = rest ∧ SameFolded w "KEY".toList :=
  WordEdit.single_found (by decide) (all_eq_true.1 (by decide)) hw hrest h

/-- The edit for the bare word passes over arrows. -/
lemma passesOver_loneEdit (b : KeyBinding) (key : String) {name : String} (hname : IsKeyName name) :
    (b.loneEdit key).PassesOver (KeyPathStyle.arrow.lead.toList ++ name.toList) := by
  refine WordEdit.passesOver_of keyWord_key (by decide) hname (fun before rest after hfound => ?_)
    fun before rest after hrest hfound => ?_
  · have hw : IsWordText "KEY".toList := all_eq_true.1 (by decide)
    have hdash : startsWord ("->".toList ++ (name.toList ++ rest)) = false :=
      (by decide : isWord '-' = false)
    obtain ⟨rfl, -⟩ := key_found (w := "KEY".toList) hw hdash hfound
    exact ⟨rfl, rfl⟩
  · obtain ⟨-, hsame⟩ := key_found hname.isWordText hrest hfound
    exact absurd hsame (hname.not_sameFolded (by decide))

/-- A reference to a key column and its path; `KEY` refers to an only key. -/
def Writes (b : KeyBinding) (ref path : List Char) : Prop :=
  b.style ≠ .plain ∧ ∃ key ∈ b.keys, path = (b.path key).toList ∧
    (SameFolded ref (b.reference key).toList ∨ b.keys = [key] ∧ SameFolded ref "KEY".toList)

lemma isKeyPath_path (hb : b.Named) (hstyle : b.style ≠ .plain) (hkey : key ∈ b.keys) :
    IsKeyPath (b.path key).toList :=
  ⟨b.style, key, hstyle, hb.keys key hkey, by rw [path, String.toList_append]⟩

lemma writesPaths {bs : List KeyBinding} (hbs : ∀ b ∈ bs, b.Named) :
    WritesPaths fun ref path => ∃ b ∈ bs, b.Writes ref path := by
  have hword : ∀ ref path, (∃ b ∈ bs, b.Writes ref path) →
      ∃ word, WordEdit.KeyWord word ∧ SameFolded ref word := by
    rintro ref path ⟨b, hb, -, key, hkey, -, hsame | ⟨-, hsame⟩⟩
    · exact ⟨_, keyWord_reference (hbs b hb) ((hbs b hb).keys key hkey), hsame⟩
    · exact ⟨_, keyWord_key, hsame⟩
  refine ⟨fun ref path hW rest => ?_, fun ref path hW before => ?_, ?_⟩
  · obtain ⟨word, hkeyWord, hsame⟩ := hword ref path hW
    exact hsame.startsWord hkeyWord.wholeWord.first rest
  · obtain ⟨word, hkeyWord, hsame⟩ := hword ref path hW
    exact hsame.reverse.startsWord hkeyWord.wholeWord.last before
  · rintro ref path ⟨b, hb, hstyle, key, hkey, rfl, -⟩
    exact isKeyPath_path (hbs b hb) hstyle hkey

end KeyBinding

/-! ## Runs of edits -/

/-- What a run of edits preserves, if each of them passes over all the paths. -/
lemma WrittenOnce.edits (hW : WritesPaths W) {es : List WordEdit}
    (hword : ∀ e ∈ es, WordEdit.KeyWord e.word)
    (hpasses : ∀ e ∈ es, ∀ ref path, W ref path → e.PassesOver path)
    (hnew : ∀ e ∈ es, ∀ ref, SameFolded ref e.word → W ref e.written) {s t : List Char}
    (h : WrittenOnce W [] s t) : WrittenOnce W [] s (es.foldl (fun t e => e.run t) t) := by
  induction es generalizing t with
  | nil => exact h
  | cons e es ih =>
    have he := mem_cons_self (a := e) (l := es)
    have hfirst : WrittenOnce W [] s (e.run t) :=
      h.edit (hword e he) hW (fun _ _ hwrite => hwrite) (hpasses e he) (hnew e he) rfl
    exact ih (forall_mem_cons.1 hword).2
      (forall_mem_cons.1 hpasses).2
      (forall_mem_cons.1 hnew).2 hfirst

/-- The first edit meets no paths, so it need not pass over any. -/
lemma WrittenOnce.first_edit {e : WordEdit} (hword : WordEdit.KeyWord e.word)
    (hnew : ∀ ref, SameFolded ref e.word → W ref e.written) (s : List Char) :
    WrittenOnce W [] s (e.run s) := by
  have hnone : WritesPaths fun _ _ => False :=
    ⟨fun _ _ hfalse => hfalse.elim, fun _ _ hfalse => hfalse.elim, fun _ _ hfalse => hfalse.elim⟩
  exact (refl (W := fun _ _ => False) s).edit hword hnone
    (fun _ _ hfalse => hfalse.elim) (fun _ _ hfalse => hfalse.elim) hnew rfl

namespace KeyBinding

variable {b : KeyBinding}

variable {e : WordEdit}

/-- The edits are those of the keys, and of the bare word for one key. -/
lemma mem_edits_iff : e ∈ b.edits ↔ b.style ≠ .plain ∧
    ((∃ lone, b.keys = [lone] ∧ e = b.loneEdit lone) ∨ ∃ key ∈ b.keys, e = b.keyEdit key) := by
  have hlone : e ∈ b.loneEdits ↔ ∃ lone, b.keys = [lone] ∧ e = b.loneEdit lone := by
    unfold loneEdits
    rcases b.keys with _ | ⟨lone, _ | ⟨second, others⟩⟩
    · simp
    · simp
    · simp
  unfold edits
  by_cases hplain : b.style = .plain
  · simp [hplain]
  · rw [if_neg hplain, mem_append, hlone, mem_map]
    simp only [hplain, ne_eq, not_false_eq_true, true_and, eq_comm (a := e)]

lemma keyWord_of_mem_edits (hb : b.Named) (he : e ∈ b.edits) : WordEdit.KeyWord e.word := by
  obtain ⟨-, ⟨lone, -, rfl⟩ | ⟨key, hkey, rfl⟩⟩ := mem_edits_iff.1 he
  · exact keyWord_key
  · exact keyWord_reference hb (hb.keys key hkey)

lemma writes_of_mem_edits (he : e ∈ b.edits) {ref : List Char} (href : SameFolded ref e.word) :
    b.Writes ref e.written := by
  obtain ⟨hstyle, ⟨lone, hlone, rfl⟩ | ⟨key, hkey, rfl⟩⟩ := mem_edits_iff.1 he
  · exact ⟨hstyle, lone, hlone ▸ mem_singleton_self lone, rfl, .inr ⟨hlone, href⟩⟩
  · exact ⟨hstyle, key, hkey, rfl, .inl href⟩

end KeyBinding

end StreamQuery
