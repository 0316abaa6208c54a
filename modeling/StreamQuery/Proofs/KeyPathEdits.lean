import StreamQuery.Proofs.QuoteLocal
import StreamQuery.Statement.Create

/-!
# Key paths and quotation marks

Key columns are found as whole words, and neither the word nor what is asked of its surroundings
reaches across a quotation mark (`wordRule_local`), as long as the names of key columns hold none.
`Query.HasPlainKeys.styleKeys` is the statement about all key paths of a query, which bring in no
quotation marks either.
-/

namespace StreamQuery

open List

namespace Text

variable {word : List Char} {accept : List Char → List Char → Bool} {q : Char}

/-! ## Words -/

lemma wordBoundary_ahead (before : List Char) {u : List Char} (hu : '\'' ∈ u) (post : List Char) :
    wordBoundary before (u ++ post) = wordBoundary before u := by
  unfold wordBoundary startsWord
  rw [head?_append_of_mem hu]

lemma wordBoundary_behind (near before rest : List Char) :
    wordBoundary (near ++ '\'' :: before) rest = wordBoundary (near ++ ['\'']) rest := by
  have hmem : '\'' ∈ near ++ ['\''] := by simp
  have happend : near ++ '\'' :: before = (near ++ ['\'']) ++ before := by simp
  unfold wordBoundary startsWord
  rw [happend, head?_append_of_mem hmem]

lemma take_append_word {m after post : List Char} (h : m.length = word.length) :
    (m ++ after ++ post).take word.length = (m ++ after).take word.length := by
  rw [append_assoc, ← h, take_left, take_left]

/-- A word without a mark ends before the next mark. -/
lemma afterWord?_ahead (hword : '\'' ∉ word) (before : List Char) {u : List Char} (hu : '\'' ∈ u)
    (post : List Char) :
    afterWord? word before (u ++ post) = (afterWord? word before u).map (· ++ post) := by
  unfold afterWord?
  rw [wordBoundary_ahead before hu, dropFolded?_append hword hu]
  split
  · cases hdrop : dropFolded? word u with
    | none => rfl
    | some after =>
      obtain ⟨m, rfl, hlength, hmark⟩ := dropFolded?_split hdrop
      have hafter : '\'' ∈ after := (mem_append.1 hu).resolve_left (hmark hword)
      rw [take_append_word hlength]
      simp only [Option.map_some, Option.filter_some, wordBoundary_ahead _ hafter]
      split <;> rfl
  · rfl

lemma afterWord?_behind (word near before rest : List Char) :
    afterWord? word (near ++ '\'' :: before) rest = afterWord? word (near ++ ['\'']) rest := by
  unfold afterWord?
  rw [wordBoundary_behind]
  have hboundary : ∀ m after, wordBoundary (m ++ (near ++ '\'' :: before)) after =
      wordBoundary (m ++ (near ++ ['\''])) after := by
    intro m after
    rw [← append_assoc, ← append_assoc]
    exact wordBoundary_behind (m ++ near) before after
  simp only [hboundary]

lemma wordBoundary_mark_nil (before : List Char) : wordBoundary ('\'' :: before) [] = false := by
  simp only [wordBoundary, startsWord, head?_cons, head?_nil]
  decide

/-- A word without a mark takes no mark from a text. -/
lemma afterWord?_split {before rest after : List Char} (hword : '\'' ∉ word)
    (h : afterWord? word before rest = some after) :
    ∃ m, rest = m ++ after ∧ m.length = word.length ∧ '\'' ∉ m := by
  unfold afterWord? at h
  split at h
  · obtain ⟨m, hm, hlength, hmark⟩ := dropFolded?_split (Option.eq_some_of_filter_eq_some h)
    exact ⟨m, hm, hlength, hmark hword⟩
  · cases h

/-- A condition around a word that does not look across marks. -/
structure LocalCondition (accept : List Char → List Char → Bool) : Prop where
  ahead : ∀ before u post, '\'' ∈ u → accept before (u ++ post) = accept before u
  behind : ∀ near before after,
    accept (near ++ '\'' :: before) after = accept (near ++ ['\'']) after

/-- A rule on a word without a mark does not reach across marks, if its condition does not. -/
lemma wordRule_local {written : List Char} (hword : '\'' ∉ word) (haccept : LocalCondition accept)
    (hempty : word = [] → ∀ before rest, accept before ('\'' :: rest) = false) :
    (wordRule word written accept).Local where
  ahead before u post hu := by
    unfold wordRule
    rw [afterWord?_ahead hword before hu]
    cases hafter : afterWord? word before u with
    | none => rfl
    | some after =>
      obtain ⟨m, rfl, hlength, hm⟩ := afterWord?_split hword hafter
      have hmem : '\'' ∈ after := (mem_append.1 hu).resolve_left hm
      simp only [Option.map_some, haccept.ahead before after post hmem, take_append_word hlength]
  behind near before rest := by
    simp only [wordRule, afterWord?_behind, haccept.behind]
  taken before y n w h := by
    obtain ⟨after, hafter, hfound⟩ := Option.map_eq_some_iff.1 h
    cases hfound
    obtain ⟨m, hm, hlength, hmark⟩ := afterWord?_split hword hafter
    rw [← hlength]
    exact length_le_of_mark hm hmark
  still before rest n w h := by
    obtain ⟨after, hafter, hfound⟩ := Option.map_eq_some_iff.1 h
    cases hfound
    obtain ⟨m, hm, hlength, hmark⟩ := afterWord?_split hword hafter
    have hnil : word.length = 0 := by
      rw [← hlength]
      exact Nat.le_zero.1 (length_le_of_mark (y := []) hm hmark)
    obtain rfl : m = [] := eq_nil_of_length_eq_zero (hlength.trans hnil)
    rw [nil_append] at hm
    rw [← hm, hempty (eq_nil_of_length_eq_zero hnil), hnil]
    rfl
  atEnd before n w h := by
    simp [wordRule, afterWord?, wordBoundary_mark_nil] at h

/-- What holds of each of the three quotation marks holds of a quotation mark. -/
@[elab_as_elim]
lemma isQuote_induction {P : Char → Prop} (hP : P '\x60' ∧ P '\'' ∧ P '"') (h : isQuote q) :
    P q := by
  unfold isQuote at h
  simp only [Bool.or_eq_true, beq_iff_eq] at h
  rcases h with (rfl | rfl) | rfl
  · exact hP.1
  · exact hP.2.1
  · exact hP.2.2

lemma isAlphabetic_of_isQuote (h : isQuote q) :
    isAlphabetic q = false ∧ isBlank q = false ∧ q ≠ '-' :=
  isQuote_induction (by decide) h

lemma renames_behind (hq : isQuote q) (near before : List Char) :
    renames (near ++ q :: before) = renames (near ++ [q]) := by
  obtain ⟨halpha, hblank, -⟩ := isAlphabetic_of_isQuote hq
  have hmem : q ∈ near ++ [q] := by simp
  have happend : near ++ q :: before = (near ++ [q]) ++ before := by simp
  unfold renames
  rw [happend, dropWhile_append_of_mem hblank hmem,
    takeWhile_append_of_mem halpha (mem_dropWhile hblank hmem)]

lemma unprefixed_behind (hq : isQuote q) (near before after : List Char) :
    unprefixed (near ++ q :: before) after = unprefixed (near ++ [q]) after := by
  have happend : near ++ q :: before = (near ++ [q]) ++ before := by simp
  have hname : ∀ ending : String, q.toLower ∉ ending.toList.reverse.map Char.toLower →
      endsWithName (near ++ q :: before) ending = endsWithName (near ++ [q]) ending := by
    intro ending hending
    have hmem : q.toLower ∈ (near ++ [q]).map Char.toLower := mem_map_of_mem (by simp)
    unfold endsWithName
    rw [happend, map_append, isPrefixOf_append hending hmem]
  have hmarks : q.toLower ∉ "KEY->".toList.reverse.map Char.toLower ∧
      q.toLower ∉ "key.".toList.reverse.map Char.toLower := by
    refine isQuote_induction ?_ hq
    decide
  have hhead : (near ++ q :: before).head? = (near ++ [q]).head? := by
    cases near <;> rfl
  unfold unprefixed
  rw [hname _ hmarks.1, hname _ hmarks.2, hhead]

lemma unprefixed_local : LocalCondition unprefixed where
  ahead before u post hu := by
    unfold unprefixed
    rw [head?_append_of_mem hu]
  behind near before after := unprefixed_behind rfl near before after

lemma unprefixed_mark (before rest : List Char) : unprefixed before ('\'' :: rest) = false := by
  simp [unprefixed, isQuote]

lemma LocalCondition.unrenamed (h : LocalCondition accept) :
    LocalCondition fun before after => accept before after && !renames before where
  ahead before u post hu := by rw [h.ahead before u post hu]
  behind near before after := by rw [h.behind, renames_behind rfl]

lemma noArrow_local : LocalCondition fun _ after => !(List.isPrefixOf ['-', '>'] after) where
  ahead _ u post hu := by rw [isPrefixOf_append (by decide) hu]
  behind _ _ _ := rfl

/-! ## Key paths -/

/-- A text without quotation marks of any kind. -/
def Unquoted (s : List Char) : Prop :=
  ∀ c ∈ s, isQuote c = false

/-- It can be checked whether a text has quotation marks. -/
instance (s : List Char) : Decidable (Unquoted s) :=
  decidable_of_iff (s.all (!isQuote ·) = true) (by simp [Unquoted])

lemma Unquoted.not_mem {s : List Char} (h : Unquoted s) (hq : isQuote q) : q ∉ s := by
  intro hmem
  rw [h q hmem] at hq
  cases hq

/-- An edit that takes a text apart at its marks and brings no quotation mark into a text without
one. -/
structure Styling (f : List Char → List Char) : Prop where
  parts : QuoteLocal f
  unquoted : ∀ q, isQuote q = true → ∀ s, q ∉ s → q ∉ f s

namespace Styling

lemma id : Styling fun s => s :=
  ⟨QuoteLocal.id, fun _ _ _ h => h⟩

lemma comp {g f : List Char → List Char} (hg : Styling g) (hf : Styling f) :
    Styling fun s => g (f s) :=
  ⟨hg.parts.comp hf.parts, fun q hq s hs => hg.unquoted q hq _ (hf.unquoted q hq s hs)⟩

lemma foldl {α : Type} {edit : List Char → α → List Char} (xs : List α)
    (h : ∀ x ∈ xs, Styling fun s => edit s x) : Styling fun s => xs.foldl edit s :=
  foldl_closed id comp xs h

end Styling

/-- A substitution brings in no character that its rule never brings in. -/
lemma not_mem_substituteFrom {rule : Rule}
    (hrule : ∀ before rest n written, q ∉ rest → rule before rest = some (n, written) → q ∉ written)
    (skip : Nat) (before rest : List Char) (hrest : q ∉ rest) :
    q ∉ substituteFrom rule skip before rest := by
  fun_induction substituteFrom rule skip before rest with
  | case1 before n written hmatch => exact hrule _ _ _ _ hrest hmatch
  | case2 => exact hrest
  | case3 => exact hrest
  | case4 skip before c rest ih => exact ih fun hmem => hrest (mem_cons_of_mem _ hmem)
  | case5 before c rest hmatch ih =>
    rw [mem_cons, not_or] at hrest ⊢
    exact ⟨hrest.1, ih hrest.2⟩
  | case6 before c rest written hmatch ih =>
    have hwritten := hrule _ _ _ _ hrest hmatch
    rw [mem_cons, not_or] at hrest
    rw [mem_append, mem_cons, not_or, not_or]
    exact ⟨hwritten, hrest.1, ih hrest.2⟩
  | case7 before c rest n written hmatch ih =>
    rw [mem_append, not_or]
    exact ⟨hrule _ _ _ _ hrest hmatch, ih fun hmem => hrest (mem_cons_of_mem _ hmem)⟩

/-- The substitution of an unquoted text for an unquoted word. -/
lemma wordRule_styling {written : List Char} (hword : Unquoted word) (hwritten : Unquoted written)
    (haccept : LocalCondition accept)
    (hempty : word = [] → ∀ before rest, accept before ('\'' :: rest) = false) :
    Styling (substitute (wordRule word written accept)) where
  parts := (wordRule_local (hword.not_mem (by decide)) haccept hempty).substitute
  unquoted q hq s hs := by
    refine not_mem_substituteFrom (fun before rest n w hrest hmatch => ?_) 0 [] s hs
    obtain ⟨after, -, hfound⟩ := Option.map_eq_some_iff.1 hmatch
    cases hfound
    split
    · exact hwritten.not_mem hq
    · exact fun hmem => hrest (mem_of_mem_take hmem)

end Text

namespace KeyBinding

open Text

variable {key : String}

/-- A binding whose alias and keys have no quotation marks. -/
structure Plain (b : KeyBinding) : Prop where
  aliasName : Unquoted b.aliasName.toList
  keys : ∀ key ∈ b.keys, Unquoted key.toList

lemma unquoted_path (b : KeyBinding) (hkey : Unquoted key.toList) :
    Unquoted (b.path key).toList := by
  have hlead : Unquoted b.style.lead.toList := by
    cases b.style <;> decide
  intro c hc
  rw [path, String.toList_append, mem_append] at hc
  exact hc.elim (hlead c) (hkey c)

lemma styleKey_styling {b : KeyBinding} (hb : b.Plain) (hkey : Unquoted key.toList) :
    Styling fun clause => b.styleKey clause key := by
  unfold styleKey
  by_cases halias : b.aliasName = ""
  · have hcond : (b.aliasName == "") := beq_iff_eq.2 halias
    simp only [hcond, if_true]
    refine wordRule_styling hkey (b.unquoted_path hkey) unprefixed_local.unrenamed ?_
    intro _ before rest
    rw [unprefixed_mark, Bool.false_and]
  · have hcond : (b.aliasName == "") = false := beq_eq_false_iff_ne.2 halias
    have hword : Unquoted (b.aliasName ++ "." ++ key).toList := by
      intro c hc
      simp only [String.toList_append, mem_append] at hc
      rcases hc with (hc | hc) | hc
      · exact hb.aliasName c hc
      · exact (show Unquoted ".".toList by decide) c hc
      · exact hkey c hc
    simp only [hcond]
    exact wordRule_styling hword (b.unquoted_path hkey) unprefixed_local
      fun _ before rest => unprefixed_mark before rest

/-- The edit of a binding: nothing in plain style, and else key by key, after a bare `KEY` for one
key. -/
lemma apply_cases (b : KeyBinding) :
    (b.apply = fun clause => clause) ∨ (b.apply = fun clause => b.keys.foldl b.styleKey clause) ∨
      ∃ lone ∈ b.keys, b.apply = fun clause =>
        b.keys.foldl b.styleKey (styleLone (b.path lone) clause) := by
  by_cases hplain : (b.style == .plain)
  · refine .inl (funext fun clause => ?_)
    unfold apply
    rw [if_pos hplain]
  · refine .inr ?_
    rcases hkeys : b.keys with _ | ⟨lone, _ | ⟨second, others⟩⟩
    · refine .inl (funext fun clause => ?_)
      unfold apply
      rw [if_neg hplain, hkeys]
    · refine .inr ⟨lone, mem_singleton_self _, funext fun clause => ?_⟩
      unfold apply
      rw [if_neg hplain, hkeys]
    · refine .inl (funext fun clause => ?_)
      unfold apply
      rw [if_neg hplain, hkeys]

lemma apply_styling {b : KeyBinding} (hb : b.Plain) : Styling b.apply := by
  have hkeys : Styling fun clause => b.keys.foldl b.styleKey clause :=
    Styling.foldl b.keys fun key hkey => styleKey_styling hb (hb.keys key hkey)
  have hlone : ∀ key ∈ b.keys, Styling (styleLone (b.path key)) := fun key hkey =>
    wordRule_styling (by decide) (b.unquoted_path (hb.keys key hkey))
      noArrow_local.unrenamed fun hnil => absurd hnil (by decide)
  rcases b.apply_cases with happly | happly | ⟨lone, hmem, happly⟩
  · rw [happly]
    exact Styling.id
  · rw [happly]
    exact hkeys
  · rw [happly]
    exact hkeys.comp (hlone lone hmem)

lemma mem_keyNames_of_mem_keys {aliasName : String} {s : Source} {requested : KeyPathStyle}
    (h : key ∈ (ofSource aliasName s requested).keys) : key ∈ s.keyNames := by
  have hfold : ∀ names found : List String,
      key ∈ names.foldl (fun keys key => if keys.contains key then keys else keys ++ [key]) found →
        key ∈ found ∨ key ∈ names := by
    intro names
    induction names with
    | nil => exact fun found hmem => .inl hmem
    | cons name names ih =>
      intro found hmem
      rcases ih _ hmem with hfound | hnames
      · dsimp only at hfound
        split at hfound
        · exact .inl hfound
        · rw [mem_append, mem_singleton] at hfound
          rcases hfound with hfound | rfl
          · exact .inl hfound
          · exact .inr (mem_cons_self ..)
      · exact .inr (mem_cons_of_mem _ hnames)
  rcases hfold s.keyNames [] h with hmem | hmem
  · cases hmem
  · exact hmem

end KeyBinding

namespace Query

open Text

/-- The key columns of the sources have no quotation marks in their names. -/
def HasPlainKeys (q : Query) : Prop :=
  ∀ s ∈ q.sources, ∀ key ∈ s.keyNames, Unquoted key.toList

/-- It can be checked whether key names have quotation marks. -/
instance (q : Query) : Decidable q.HasPlainKeys :=
  inferInstanceAs (Decidable (∀ s ∈ q.sources, ∀ key ∈ s.keyNames, Unquoted key.toList))

lemma HasPlainKeys.binding {q : Query} (hq : q.HasPlainKeys) {requested : KeyPathStyle}
    {b : KeyBinding} (hb : b ∈ KeyBinding.ofQuery q requested) : b.Plain := by
  have hsource : ∀ aliasName : String, Unquoted aliasName.toList → ∀ s ∈ q.sources,
      (KeyBinding.ofSource aliasName s requested).Plain := fun aliasName halias s hs =>
    ⟨halias, fun key hkey => hq s hs key (KeyBinding.mem_keyNames_of_mem_keys hkey)⟩
  unfold KeyBinding.ofQuery at hb
  split at hb
  · cases hb
  · next primary rest hsources =>
    rcases mem_cons.1 hb with rfl | hb
    · refine hsource _ ?_ primary (by rw [hsources]; exact mem_cons_self ..)
      split
      · decide
      · decide
    · obtain ⟨joined, hjoined, rfl⟩ := mem_map.1 hb
      refine hsource _ ?_ joined ?_
      · decide
      · rw [hsources]
        exact mem_cons_of_mem _ (mem_of_mem_take hjoined)

/-- Writing the references to the key columns of a query as key paths. -/
theorem HasPlainKeys.styleKeys {q : Query} (hq : q.HasPlainKeys) (keyPath : KeyPathStyle) :
    Styling (overChars (styleKeys (KeyBinding.ofQuery q keyPath))) := by
  have hfold : overChars (StreamQuery.styleKeys (KeyBinding.ofQuery q keyPath)) = fun clause =>
      (KeyBinding.ofQuery q keyPath).foldl (fun clause b => b.apply clause) clause := by
    funext clause
    rw [overChars, StreamQuery.styleKeys, String.toList_ofList, String.toList_ofList]
  rw [hfold]
  exact Styling.foldl _ fun b hb => KeyBinding.apply_styling (hq.binding hb)

end Query

end StreamQuery
