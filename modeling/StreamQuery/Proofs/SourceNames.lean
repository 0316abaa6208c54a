import StreamQuery.Proofs.Literals
import StreamQuery.Proofs.TwoSourceKeys
import StreamQuery.Proofs.WordParts

/-!
# Names in the FROM clause

Key styling runs over the FROM clause as over every other clause, so a source whose name is taken
for a reference to a key column gets a key path in place of its name.  The clause is made of parts
between blanks, each edited by itself.  If the sources are aliased, the keywords and the aliases
stay as they are (`styleKeys_aliased`).  `source_names_kept_iff` gives the exact condition under
which the names stay.
-/

namespace StreamQuery

open Text List KeyBinding

/-! ## Keys and their edits -/

/-- A key column that can be looked for as a whole word: it begins and ends with a name character
and has no blanks in it. -/
def IsKeyText (key : String) : Prop :=
  key.toList.head?.any isNamePart = true ∧ key.toList.reverse.head?.any isNamePart = true ∧
    ' ' ∉ key.toList

/-- It can be checked whether a name can be looked for. -/
instance (key : String) : Decidable (IsKeyText key) :=
  inferInstanceAs (Decidable (_ ∧ _ ∧ _))

/-- The key columns of the sources have names that can be looked for. -/
def Query.HasKeyTexts (q : Query) : Prop :=
  ∀ s ∈ q.sources, ∀ key ∈ s.keyNames, IsKeyText key

/-- It can be checked whether all names can be looked for. -/
instance (q : Query) : Decidable q.HasKeyTexts :=
  inferInstanceAs (Decidable (∀ s ∈ q.sources, ∀ key ∈ s.keyNames, IsKeyText key))

namespace KeyBinding

/-- A source binding: no alias or one of the two, and keys to look for. -/
structure Findable (b : KeyBinding) : Prop where
  aliasName : b.aliasName = "" ∨ b.aliasName = "o" ∨ b.aliasName = "i"
  keys : ∀ key ∈ b.keys, IsKeyText key

variable {b : KeyBinding}

lemma length_path (hstyle : b.style ≠ .plain) (key : String) :
    key.toList.length + 4 ≤ (b.path key).toList.length := by
  rw [path, String.toList_append, length_append]
  have hlead : 4 ≤ b.style.lead.toList.length := by
    cases hcase : b.style with
    | plain => exact absurd hcase hstyle
    | dot => decide
    | arrow => decide
  omega

lemma isPathEdit_loneEdit (hstyle : b.style ≠ .plain) (key : String) :
    (b.loneEdit key).IsPathEdit where
  whole := keyWord_key.wholeWord
  noBlank := (by decide : ' ' ∉ "KEY".toList)
  longer := by
    have hpath := b.length_path hstyle key
    change 3 < (b.path key).toList.length
    omega
  ahead before after rest := by
    unfold loneEdit
    dsimp only
    rw [isPrefixOf_append_cons (by decide)]
  behind near far after hfar := by
    unfold loneEdit
    dsimp only
    rw [renames_blank near hfar]

lemma reference_unaliased (halias : b.aliasName = "") (key : String) : b.reference key = key := by
  unfold reference
  rw [halias, if_pos (beq_self_eq_true _)]

lemma wholeWord_reference (hb : b.Findable) {key : String} (hkey : IsKeyText key) :
    WholeWord (b.reference key).toList := by
  obtain ⟨hfirst, hlast, -⟩ := hkey
  rcases reference_cases hb.aliasName key with ⟨-, href⟩ | ⟨a, ha, -, href⟩
  · rw [href]
    exact ⟨hfirst, hlast⟩
  · rw [href]
    refine ⟨by rcases ha with rfl | rfl <;> rfl, ?_⟩
    rw [reverse_cons, reverse_cons, append_assoc]
    cases hreverse : key.toList.reverse with
    | nil =>
      rw [hreverse] at hlast
      cases hlast
    | cons c rest =>
      rw [hreverse] at hlast
      exact hlast

lemma isPathEdit_keyEdit (hb : b.Findable) (hstyle : b.style ≠ .plain) {key : String}
    (hkey : IsKeyText key) : (b.keyEdit key).IsPathEdit where
  whole := wholeWord_reference hb hkey
  noBlank := by
    change ' ' ∉ (b.reference key).toList
    rcases reference_cases hb.aliasName key with ⟨-, href⟩ | ⟨a, ha, -, href⟩
    · rw [href]
      exact hkey.2.2
    · rw [href, mem_cons, mem_cons, not_or, not_or]
      refine ⟨?_, by decide, hkey.2.2⟩
      rintro rfl
      revert ha
      decide
  longer := by
    have hpath := b.length_path hstyle key
    change (b.reference key).toList.length < (b.path key).toList.length
    rcases reference_cases hb.aliasName key with ⟨-, href⟩ | ⟨a, -, -, href⟩
    · rw [href]
      omega
    · rw [href, length_cons, length_cons]
      omega
  ahead before after rest := by
    unfold keyEdit
    dsimp only
    rw [(unprefixed_blank before [] after rest).2]
  behind near far after hfar := by
    unfold keyEdit
    dsimp only
    rw [(unprefixed_blank near far after []).1, renames_blank near hfar]

lemma isPathEdit_of_mem_edits (hb : b.Findable) {e : WordEdit} (he : e ∈ b.edits) :
    e.IsPathEdit := by
  obtain ⟨hstyle, ⟨lone, -, rfl⟩ | ⟨key, hkey, rfl⟩⟩ := mem_edits_iff.1 he
  · exact isPathEdit_loneEdit hstyle lone
  · exact isPathEdit_keyEdit hb hstyle (hb.keys key hkey)

/-- Every edit accepts a word that stands alone. -/
lemma accept_of_mem_edits {e : WordEdit} (he : e ∈ b.edits) : e.accept [] [] := by
  obtain ⟨-, ⟨lone, -, rfl⟩ | ⟨key, -, rfl⟩⟩ := mem_edits_iff.1 he
  · rfl
  · exact Bool.or_true _

lemma not_sameFolded_reference (hb : b.Findable) (halias : b.aliasName ≠ "") {w : List Char}
    (hw : IsWordText w) (key : String) : ¬ SameFolded w (b.reference key).toList := by
  intro hsame
  rcases reference_cases hb.aliasName key with ⟨hnone, -⟩ | ⟨a, -, -, href⟩
  · exact halias hnone
  · -- the word would hold a full stop
    rw [href] at hsame
    have hdot : '.' ∈ w := by
      by_contra hnot
      have habsent := hsame.symm.not_mem (fun d => eq_dot_of_fold) hnot
      exact habsent (by simp)
    exact absurd (hw '.' hdot) (by decide)

/-- With an alias, no word but `KEY` is looked for. -/
lemma not_sameFolded_of_aliased (hb : b.Findable) (halias : b.aliasName ≠ "") {e : WordEdit}
    (he : e ∈ b.edits) {w : List Char} (hw : IsWordText w)
    (hkey : ¬ SameFolded w "KEY".toList) : ¬ SameFolded w e.word := by
  obtain ⟨-, ⟨lone, -, rfl⟩ | ⟨key, -, rfl⟩⟩ := mem_edits_iff.1 he
  · exact hkey
  · exact not_sameFolded_reference hb halias hw key

end KeyBinding

lemma toList_styleKeys (bs : List KeyBinding) (clause : String) :
    (styleKeys bs clause).toList = WordEdit.runAll (bs.flatMap edits) clause.toList := by
  rw [styleKeys, String.toList_ofList]
  generalize clause.toList = s
  induction bs generalizing s with
  | nil => rfl
  | cons b bs ih =>
    rw [foldl_cons, ih, apply_eq, flatMap_cons]
    exact (foldl_append ..).symm

/-! ## Parts of a FROM clause -/

namespace WordEdit.IsPathEdit

variable {e : WordEdit} (he : e.IsPathEdit)

include he

/-- A word that is not looked for is passed over. -/
lemma pass_word {w : List Char} (hw : IsWordText w) (hne : ¬ SameFolded w e.word)
    (before rest : List Char) :
    substituteFrom e.rule 0 before (w ++ ' ' :: rest) =
      w ++ ' ' :: substituteFrom e.rule 0 (' ' :: (w.reverse ++ before)) rest := by
  rw [he.substituteFrom_ahead, he.substituteFrom_other hw hne]

/-- Any other part is edited by itself, unless it follows AS. -/
lemma pass_part {far : List Char} (hfar : renames (' ' :: far) = false) (part rest : List Char) :
    substituteFrom e.rule 0 (' ' :: far) (part ++ ' ' :: rest) =
      e.run part ++ ' ' :: substituteFrom e.rule 0 (' ' :: (part.reverse ++ ' ' :: far)) rest := by
  have hpart := he.substituteFrom_behind hfar [] part
  rw [nil_append] at hpart
  rw [he.substituteFrom_ahead, hpart]
  rfl

lemma last_part {far : List Char} (hfar : renames (' ' :: far) = false) (part : List Char) :
    substituteFrom e.rule 0 (' ' :: far) part = e.run part :=
  he.substituteFrom_behind hfar [] part

end WordEdit.IsPathEdit

namespace FromClause

/-- The characters of a clause with one source under its alias. -/
def aliasedChars (left : List Char) : List Char :=
  "FROM".toList ++ ' ' :: (left ++ ' ' :: "o".toList)

/-- The characters of a clause with two sources. -/
def joinedChars (left right within condition : List Char) : List Char :=
  "FROM".toList ++ ' ' :: (left ++ ' ' :: ("o".toList ++ ' ' :: ("JOIN".toList ++ ' ' ::
    (right ++ ' ' :: ("i".toList ++ ' ' :: ("WITHIN".toList ++ ' ' :: (within ++ ' ' ::
      ("SECONDS".toList ++ ' ' :: ("ON".toList ++ ' ' :: condition)))))))))

lemma length_aliasedChars (left : List Char) : (aliasedChars left).length = left.length + 7 := by
  simp [aliasedChars]

/-- The length of a clause with two sources. -/
lemma length_joinedChars (left right within condition : List Char) :
    (joinedChars left right within condition).length =
      left.length + right.length + within.length + condition.length + 35 := by
  simp only [joinedChars, length_append, length_cons]
  have hwords : "FROM".toList.length = 4 ∧ "o".toList.length = 1 ∧ "JOIN".toList.length = 4 ∧
      "i".toList.length = 1 ∧ "WITHIN".toList.length = 6 ∧ "SECONDS".toList.length = 7 ∧
        "ON".toList.length = 2 := by decide
  omega

/-- The words of a FROM clause. -/
def keywords : List (List Char) :=
  ["FROM".toList, "o".toList, "JOIN".toList, "i".toList, "WITHIN".toList, "SECONDS".toList,
    "ON".toList]

lemma keyword_apart {w : List Char} (hw : w ∈ keywords) :
    IsWordText w ∧ ¬ SameFolded w "KEY".toList := by
  simp only [keywords, mem_cons, not_mem_nil, or_false] at hw
  rcases hw with rfl | rfl | rfl | rfl | rfl | rfl | rfl
  all_goals exact ⟨all_eq_true.1 (by decide), by decide⟩

lemma number_apart (n : Nat) :
    IsWordText (toString n).toList ∧ ¬ SameFolded (toString n).toList "KEY".toList := by
  have htext : (toString n).toList = Nat.toDigits 10 n := by
    rw [Nat.toString_eq_repr, Nat.toList_repr]
  have hdigit : ∀ c ∈ (toString n).toList, isNamePart c ∧ fold c ≠ fold 'K' := by
    intro c hc
    rw [htext] at hc
    have hdigit := Nat.isDigit_of_mem_toDigits (by decide) (by decide) hc
    have hascii : c.toNat < 0x80 := by
      have hle : c.toNat ≤ 57 := (Bool.and_eq_true_iff.1 hdigit).2 |> of_decide_eq_true
      omega
    exact ascii_induction (P := fun c => c.isDigit → isNamePart c ∧ fold c ≠ fold 'K')
      (by decide) hascii hdigit
  refine ⟨fun c hc => isWord_of_isNamePart (hdigit c hc).1, fun hsame => ?_⟩
  cases hcase : (toString n).toList with
  | nil =>
    rw [hcase] at hsame
    cases hsame.length_eq
  | cons c rest =>
    rw [hcase] at hsame
    exact (hdigit c (hcase ▸ mem_cons_self)).2 (List.cons.inj hsame).1

section

variable {e : WordEdit} (he : e.IsPathEdit)
  (hother : ∀ w, IsWordText w → ¬ SameFolded w "KEY".toList → ¬ SameFolded w e.word)

include hother

lemma keyword_other {w : List Char} (hw : w ∈ keywords) : IsWordText w ∧ ¬ SameFolded w e.word :=
  ⟨(keyword_apart hw).1, hother w (keyword_apart hw).1 (keyword_apart hw).2⟩

include he

lemma run_aliasedChars (left : List Char) :
    e.run (aliasedChars left) = aliasedChars (e.run left) := by
  have hfrom := keyword_other hother (by decide : "FROM".toList ∈ keywords)
  have ho := keyword_other hother (by decide : "o".toList ∈ keywords)
  unfold WordEdit.run substitute aliasedChars
  rw [he.pass_word hfrom.1 hfrom.2, he.pass_part (by decide), he.substituteFrom_other ho.1 ho.2]
  rfl

/-- An edit for aliased sources edits their names and the condition. -/
lemma run_joinedChars (left right : List Char) (within : Nat) (condition : List Char) :
    e.run (joinedChars left right (toString within).toList condition) =
      joinedChars (e.run left) (e.run right) (toString within).toList (e.run condition) := by
  have hfrom := keyword_other hother (by decide : "FROM".toList ∈ keywords)
  have ho := keyword_other hother (by decide : "o".toList ∈ keywords)
  have hjoin := keyword_other hother (by decide : "JOIN".toList ∈ keywords)
  have hi := keyword_other hother (by decide : "i".toList ∈ keywords)
  have hwithin := keyword_other hother (by decide : "WITHIN".toList ∈ keywords)
  have hseconds := keyword_other hother (by decide : "SECONDS".toList ∈ keywords)
  have hon := keyword_other hother (by decide : "ON".toList ∈ keywords)
  have hnumber := number_apart within
  unfold WordEdit.run substitute joinedChars
  rw [he.pass_word hfrom.1 hfrom.2, he.pass_part (by decide), he.pass_word ho.1 ho.2,
    he.pass_word hjoin.1 hjoin.2, he.pass_part rfl, he.pass_word hi.1 hi.2,
    he.pass_word hwithin.1 hwithin.2, he.pass_word hnumber.1 (hother _ hnumber.1 hnumber.2),
    he.pass_word hseconds.1 hseconds.2, he.pass_word hon.1 hon.2, he.last_part rfl]
  rfl

end

/-- The names of the sources. -/
def names (f : FromClause) : List String :=
  f.left :: f.join.toList.map JoinClause.right

/-- The clause with its names and its condition edited. -/
def mapTexts (g : String → String) (f : FromClause) : FromClause :=
  { f with
    left := g f.left
    join := f.join.map fun j => { j with right := g j.right, condition := g j.condition } }

/-- The clause with its condition edited. -/
def mapCondition (g : String → String) (f : FromClause) : FromClause :=
  { f with join := f.join.map fun j => { j with condition := g j.condition } }

/-- The characters of a clause with one source. -/
lemma toList_sql_single (left : String) :
    (mk left false none).sql.toList = "FROM".toList ++ ' ' :: left.toList ∧
      (mk left true none).sql.toList = aliasedChars left.toList := by
  unfold sql aliasedChars
  simp [primaryAlias]

/-- The characters of a clause with two sources. -/
lemma toList_sql_joined (left : String) (j : JoinClause) :
    (mk left true (some j)).sql.toList =
      joinedChars left.toList j.right.toList (toString j.within).toList j.condition.toList := by
  unfold sql JoinClause.sql joinedChars
  simp [primaryAlias, joinAlias]

end FromClause

/-- What each edit does to the parts of a text, a run of edits does. -/
lemma WordEdit.runAll_parts {es : List WordEdit} {T : List Char → List Char → List Char → List Char}
    (h : ∀ e ∈ es, ∀ x y z, e.run (T x y z) = T (e.run x) (e.run y) (e.run z)) (x y z : List Char) :
    runAll es (T x y z) = T (runAll es x) (runAll es y) (runAll es z) := by
  induction es generalizing x y z with
  | nil => rfl
  | cons e es ih =>
    have hrun : ∀ s, runAll (e :: es) s = runAll es (e.run s) := fun s => rfl
    rw [hrun, hrun, hrun, hrun, h e mem_cons_self]
    exact ih (forall_mem_cons.1 h).2 _ _ _

section

variable {bs : List KeyBinding} (hbs : ∀ b ∈ bs, b.Findable)

include hbs

lemma isPathEdit_of_mem_flatMap : ∀ e ∈ bs.flatMap edits, e.IsPathEdit := by
  intro e he
  obtain ⟨b, hb, he⟩ := mem_flatMap.1 he
  exact isPathEdit_of_mem_edits (hbs b hb) he

/-- Key styling keeps a clause or makes it longer. -/
lemma styleKeys_eq_or_longer (clause : String) :
    styleKeys bs clause = clause ∨
      clause.toList.length < (styleKeys bs clause).toList.length := by
  rw [← String.toList_inj, toList_styleKeys]
  exact (WordEdit.runAll_cases (isPathEdit_of_mem_flatMap hbs) clause.toList).imp_left And.right

lemma styleKeys_length (clause : String) :
    clause.toList.length ≤ (styleKeys bs clause).toList.length := by
  rcases styleKeys_eq_or_longer hbs clause with hkept | hlonger
  · exact Nat.le_of_eq (by rw [hkept])
  · exact Nat.le_of_lt hlonger

/-- A word is kept exactly if no edit looks for it. -/
lemma styleKeys_word_iff {name : String} (hname : IsWordText name.toList) :
    styleKeys bs name = name ↔ ∀ b ∈ bs, ∀ e ∈ b.edits, ¬ SameFolded name.toList e.word := by
  rw [← String.toList_inj, toList_styleKeys, WordEdit.runAll_eq_iff (isPathEdit_of_mem_flatMap hbs)]
  constructor
  · intro hkept b hb e he hsame
    have hedit := isPathEdit_of_mem_edits (hbs b hb) he
    have hrun := hkept e (mem_flatMap.2 ⟨b, hb, he⟩)
    rw [hedit.run_like hsame (accept_of_mem_edits he)] at hrun
    -- a longer text would be written
    have hlonger := hedit.longer
    rw [hrun, hsame.length_eq] at hlonger
    exact Nat.lt_irrefl _ hlonger
  · intro hnone e he
    obtain ⟨b, hb, he'⟩ := mem_flatMap.1 he
    exact (isPathEdit_of_mem_flatMap hbs e he).substituteFrom_other hname (hnone b hb e he') []

/-- Without an alias, FROM and the source name are edited apart. -/
lemma styleKeys_unaliased_iff (left : String) :
    styleKeys bs (FromClause.mk left false none).sql = (FromClause.mk left false none).sql ↔
      styleKeys bs "FROM" = "FROM" ∧ styleKeys bs left = left := by
  have hes := isPathEdit_of_mem_flatMap hbs
  simp only [← String.toList_inj, toList_styleKeys, WordEdit.runAll_eq_iff hes,
    (FromClause.toList_sql_single left).1]
  rw [← forall₂_and]
  refine forall₂_congr fun e he => ?_
  have hfrom : renames (' ' :: "FROM".toList.reverse) = false := by decide
  rw [(hes e he).run_parts hfrom]
  constructor
  · intro hkept
    have hlength := congrArg List.length hkept
    rw [length_append, length_cons, length_append, length_cons] at hlength
    have hword := (hes e he).length_le_run "FROM".toList
    have hname := (hes e he).length_le_run left.toList
    exact ⟨((hes e he).run_eq_or_longer _).resolve_right (by omega),
      ((hes e he).run_eq_or_longer _).resolve_right (by omega)⟩
  · rintro ⟨hword, hname⟩
    rw [hword, hname]

variable (haliased : ∀ b ∈ bs, b.aliasName ≠ "")

include haliased

/-- With aliases, the source names and the condition are edited apart. -/
lemma styleKeys_aliased (left : String) (join : Option JoinClause) :
    styleKeys bs (FromClause.mk left true join).sql =
      ((FromClause.mk left true join).mapTexts (styleKeys bs)).sql := by
  have hes := isPathEdit_of_mem_flatMap hbs
  have hother : ∀ e ∈ bs.flatMap edits, ∀ w, IsWordText w →
      ¬ SameFolded w "KEY".toList → ¬ SameFolded w e.word := by
    intro e he w hw hkey
    obtain ⟨b, hb, he⟩ := mem_flatMap.1 he
    exact not_sameFolded_of_aliased (hbs b hb) (haliased b hb) he hw hkey
  rw [← String.toList_inj, toList_styleKeys]
  cases join with
  | none =>
    have hmap : (FromClause.mk left true none).mapTexts (styleKeys bs) =
        FromClause.mk (styleKeys bs left) true none := rfl
    rw [hmap, (FromClause.toList_sql_single _).2, (FromClause.toList_sql_single _).2,
      toList_styleKeys]
    exact WordEdit.runAll_parts (T := fun x _ _ => FromClause.aliasedChars x)
      (fun e he x _ _ => FromClause.run_aliasedChars (hes e he) (hother e he) x) _ [] []
  | some j =>
    have hmap : (FromClause.mk left true (some j)).mapTexts (styleKeys bs) =
        FromClause.mk (styleKeys bs left) true
          (some ⟨styleKeys bs j.right, j.within, styleKeys bs j.condition⟩) := rfl
    rw [hmap, FromClause.toList_sql_joined, FromClause.toList_sql_joined, toList_styleKeys,
      toList_styleKeys, toList_styleKeys]
    exact WordEdit.runAll_parts
      (T := fun x y z => FromClause.joinedChars x y (toString j.within).toList z)
      (fun e he x y z => FromClause.run_joinedChars (hes e he) (hother e he) x y j.within z) _ _ _

/-- With aliases, the source names are kept exactly if each is left alone. -/
lemma styleKeys_aliased_iff (left : String) (join : Option JoinClause) :
    styleKeys bs (FromClause.mk left true join).sql =
        ((FromClause.mk left true join).mapCondition (styleKeys bs)).sql ↔
      ∀ name ∈ (FromClause.mk left true join).names, styleKeys bs name = name := by
  have hleft := styleKeys_eq_or_longer hbs left
  rw [styleKeys_aliased hbs haliased]
  cases join with
  | none =>
    change (FromClause.mk (styleKeys bs left) true none).sql = (FromClause.mk left true none).sql ↔
      ∀ name ∈ [left], styleKeys bs name = name
    rw [forall_mem_singleton]
    refine ⟨fun htext => ?_, fun hkept => by rw [hkept]⟩
    have hlength := congrArg (fun s => s.toList.length) htext
    simp only [(FromClause.toList_sql_single _).2, FromClause.length_aliasedChars] at hlength
    exact hleft.resolve_right (by omega)
  | some j =>
    have hright := styleKeys_eq_or_longer hbs j.right
    change (FromClause.mk (styleKeys bs left) true
        (some ⟨styleKeys bs j.right, j.within, styleKeys bs j.condition⟩)).sql =
      (FromClause.mk left true (some ⟨j.right, j.within, styleKeys bs j.condition⟩)).sql ↔
        ∀ name ∈ [left, j.right], styleKeys bs name = name
    rw [forall_mem_cons, forall_mem_singleton]
    refine ⟨fun htext => ?_, fun hkept => by rw [hkept.1, hkept.2]⟩
    -- neither name can have become longer
    have hlength := congrArg (fun s => s.toList.length) htext
    simp only [FromClause.toList_sql_joined, FromClause.length_joinedChars] at hlength
    have hleftLength := styleKeys_length hbs left
    have hrightLength := styleKeys_length hbs j.right
    exact ⟨hleft.resolve_right (by omega), hright.resolve_right (by omega)⟩

end

/-! ## Names of sources -/

/-- A source takes a word for a reference to a key column: its keys are written as paths, and the
word is `KEY` for one key, or a key where sources have no aliases. -/
def Source.Takes (s : Source) (aliased : Bool) (requested : KeyPathStyle) (word : String) : Prop :=
  ¬ (requested = .plain ∧ s.isTable = false) ∧
    (s.HasOneKey ∧ SameFolded word.toList "KEY".toList ∨
      aliased = false ∧ ∃ key ∈ s.keyNames, SameFolded word.toList key.toList)

/-- An edit of a source looks for a word exactly if the source takes it. -/
lemma KeyBinding.exists_edit_iff {aliasName : String} {s : Source} {requested : KeyPathStyle}
    (hb : (ofSource aliasName s requested).Findable) {word : String}
    (hword : IsWordText word.toList) :
    (∃ e ∈ (ofSource aliasName s requested).edits, SameFolded word.toList e.word) ↔
      s.Takes (aliasName != "") requested word := by
  unfold Source.Takes
  rw [← @style_eq_plain_iff aliasName s requested, ← @exists_lone_iff aliasName s requested]
  constructor
  · rintro ⟨e, he, hsame⟩
    obtain ⟨hstyle, ⟨lone, hlone, rfl⟩ | ⟨key, hkey, rfl⟩⟩ := mem_edits_iff.1 he
    · exact ⟨hstyle, .inl ⟨⟨lone, hlone⟩, hsame⟩⟩
    · by_cases halias : aliasName = ""
      · refine ⟨hstyle, .inr ⟨by rw [halias]; rfl, key, mem_keys_iff.1 hkey, ?_⟩⟩
        exact reference_unaliased (b := ofSource aliasName s requested) halias key ▸ hsame
      · exact absurd hsame (not_sameFolded_reference hb halias hword key)
  · rintro ⟨hstyle, ⟨⟨lone, hlone⟩, hsame⟩ | ⟨halias, key, hkey, hsame⟩⟩
    · exact ⟨_, mem_edits_iff.2 ⟨hstyle, .inl ⟨lone, hlone, rfl⟩⟩, hsame⟩
    · have hnone : aliasName = "" := by simpa using halias
      refine ⟨_, mem_edits_iff.2 ⟨hstyle, .inr ⟨key, mem_keys_iff.2 hkey, rfl⟩⟩, ?_⟩
      change SameFolded word.toList ((ofSource aliasName s requested).reference key).toList
      rw [reference_unaliased (b := ofSource aliasName s requested) hnone]
      exact hsame

section

variable {q : Query} {requested : KeyPathStyle}

/-- The bindings are those of the sources, aliased if the sources are. -/
lemma KeyBinding.of_mem_ofQuery {b : KeyBinding} (hb : b ∈ ofQuery q requested) :
    ∃ s ∈ q.sources, ∃ aliasName, b = ofSource aliasName s requested ∧
      (aliasName = (if q.primaryAlias then primaryAlias else "") ∨ aliasName = joinAlias) := by
  unfold ofQuery at hb
  cases hsources : q.sources with
  | nil =>
    rw [hsources] at hb
    exact absurd hb not_mem_nil
  | cons first rest =>
    rw [hsources] at hb
    rcases mem_cons.1 hb with rfl | hb
    · exact ⟨first, mem_cons_self, _, rfl, .inl rfl⟩
    · obtain ⟨second, hsecond, rfl⟩ := mem_map.1 hb
      exact ⟨second, mem_cons_of_mem _ (mem_of_mem_take hsecond), _, rfl, .inr rfl⟩

lemma Query.HasKeyTexts.findable (hkeys : q.HasKeyTexts) (requested : KeyPathStyle) :
    ∀ b ∈ ofQuery q requested, b.Findable := by
  intro b hb
  obtain ⟨s, hs, aliasName, rfl, halias⟩ := of_mem_ofQuery hb
  refine ⟨?_, fun key hkey => hkeys s hs key (mem_keys_iff.1 hkey)⟩
  rcases halias with rfl | rfl
  · change (if q.primaryAlias then StreamQuery.primaryAlias else "") = "" ∨ _
    cases q.primaryAlias with
    | false => exact .inl rfl
    | true => exact .inr (.inl rfl)
  · exact .inr (.inr rfl)

lemma KeyBinding.aliased_of_mem_ofQuery (haliased : q.primaryAlias) :
    ∀ b ∈ ofQuery q requested, b.aliasName ≠ "" := by
  intro b hb
  obtain ⟨s, -, aliasName, rfl, rfl | rfl⟩ := of_mem_ofQuery hb
  · rw [haliased]
    exact (by decide : primaryAlias ≠ "")
  · exact (by decide : joinAlias ≠ "")

/-- A source's binding leaves a word alone exactly if it does not take it. -/
lemma KeyBinding.forall_edits_iff {aliasName : String} {s : Source} {aliased : Bool}
    (hb : (ofSource aliasName s requested).Findable) (halias : (aliasName != "") = aliased)
    {word : String} (hword : IsWordText word.toList) :
    (∀ e ∈ (ofSource aliasName s requested).edits, ¬ SameFolded word.toList e.word) ↔
      ¬ s.Takes aliased requested word := by
  rw [← halias, ← exists_edit_iff hb hword]
  simp only [not_exists, not_and]

/-- The sources of a query that can be compiled: one, or two with aliases. -/
inductive Query.HasClause (q : Query) : Prop
  | single {s : Source} (hsources : q.sources = [s])
  | pair {s t : Source} (hsources : q.sources = [s, t]) (haliased : q.primaryAlias = true)

/-- Key styling leaves a word alone exactly if no source takes it. -/
lemma Query.HasKeyTexts.styleKeys_word_iff (hkeys : q.HasKeyTexts) (hclause : q.HasClause)
    (requested : KeyPathStyle) {word : String} (hword : IsWordText word.toList) :
    styleKeys (ofQuery q requested) word = word ↔
      ∀ s ∈ q.sources, ¬ s.Takes q.primaryAlias requested word := by
  have hbs := hkeys.findable requested
  have hprimary : ((if q.primaryAlias then StreamQuery.primaryAlias else "") != "") =
      q.primaryAlias := by
    cases q.primaryAlias <;> decide
  rw [StreamQuery.styleKeys_word_iff hbs hword]
  cases hclause with
  | @single s hsources =>
    have hofQuery : ofQuery q requested =
        [ofSource (if q.primaryAlias then StreamQuery.primaryAlias else "") s
          requested] := by
      unfold ofQuery
      rw [hsources]
      rfl
    rw [hofQuery] at hbs ⊢
    rw [hsources, forall_mem_singleton, forall_mem_singleton]
    exact forall_edits_iff (hbs _ mem_cons_self) hprimary hword
  | @pair s t hsources haliased =>
    have hjoined : (joinAlias != "") = q.primaryAlias := by
      rw [haliased]
      decide
    rw [ofQuery_pair hsources] at hbs ⊢
    rw [hsources, forall_mem_cons, forall_mem_singleton, forall_mem_cons,
      forall_mem_singleton,
      forall_edits_iff (hbs _ mem_cons_self) hprimary hword,
      forall_edits_iff (hbs _ (mem_cons_of_mem _ mem_cons_self)) hjoined
        hword]

end

/-- The FROM clause of a query has one source, or two with aliases. -/
lemma FromClause.ofQuery_cases {q : Query} {names : List String} {within : Nat} {aliased : Bool}
    {f : FromClause} (h : ofQuery q names within aliased = .ok f) :
    (∃ left, names = [left] ∧ f = ⟨left, aliased, none⟩) ∨
      ∃ left j, names = [left, j.right] ∧ aliased ∧ f = ⟨left, true, some j⟩ := by
  unfold ofQuery at h
  split at h
  · cases h
  · next left =>
    cases h
    exact .inl ⟨left, rfl, rfl⟩
  · next left right =>
    split at h
    · cases h
    · obtain ⟨bound, -, h⟩ := ok_of_bind h
      cases aliased with
      | false => cases h
      | true =>
        obtain ⟨condition, -, h⟩ := ok_of_bind h
        cases h
        exact .inr ⟨left, _, rfl, rfl, rfl⟩
  · cases h

/-- The names of the sources, and FROM if they have no aliases. -/
def FromClause.words (f : FromClause) : List String :=
  if f.aliased then f.names else "FROM" :: f.names

/-- The FROM clause of a created statement is that of its sources, under aliases if the query asks
for them, after key styling. With aliases, key styling edits the names of the sources and the join
condition, each by itself. It keeps the names exactly if it leaves each of them alone, and FROM too
if there are no aliases; and it leaves a word alone exactly if no source takes it for a reference to
one of its key columns. -/
theorem source_names_kept_iff (c : Compiler) (scope : Scope) (q : Query) (target : CreateTarget)
    (memo : Memo) (sql : String) (hkeys : q.HasKeyTexts)
    (hrun : (c.create scope q target memo).1 = .ok sql) :
    ∃ d, c.Composes scope q (.create target) memo d ∧ sql.toList = d.text q ∧
      d.raw.source.names = q.sources.map target.naming ∧
      d.raw.source.aliased = q.primaryAlias ∧
      (q.primaryAlias = true → (d.plan.statement q d.raw).clauses.source =
        (d.raw.source.mapTexts
          (styleKeys (KeyBinding.ofQuery q target.options.keyPath))).sql) ∧
      ((d.plan.statement q d.raw).clauses.source =
          (d.raw.source.mapCondition
            (styleKeys (KeyBinding.ofQuery q target.options.keyPath))).sql ↔
        ∀ word ∈ d.raw.source.words,
          styleKeys (KeyBinding.ofQuery q target.options.keyPath) word = word) ∧
      ∀ word : String, IsWordText word.toList →
        (styleKeys (KeyBinding.ofQuery q target.options.keyPath) word = word ↔
          ∀ s ∈ q.sources, ¬ s.Takes q.primaryAlias target.options.keyPath word) := by
  obtain ⟨d, hd, htext⟩ := c.composes_of_create scope q hrun
  have hbs := hkeys.findable target.options.keyPath
  refine ⟨d, hd, htext, ?_⟩
  cases hd with
  | create _ _ raw hraw =>
    have hclause : (CreatePlan.statement (Compiler.createPlan q target) q raw).clauses.source =
        styleKeys (KeyBinding.ofQuery q target.options.keyPath) raw.source.sql := rfl
    dsimp only
    rw [hclause]
    have hsource : c.source q target.naming q.primaryAlias = .ok raw.source :=
      (c.parts_of_rawClauses q hraw).1
    obtain ⟨left, hnames, hf⟩ | ⟨left, j, hnames, haliased, hf⟩ := FromClause.ofQuery_cases hsource
    · obtain ⟨s, hsources, rfl⟩ := map_eq_singleton_iff.1 hnames
      rw [hf, hnames]
      refine ⟨rfl, rfl, fun haliased => ?_, ?_, fun word hword =>
        hkeys.styleKeys_word_iff (.single hsources) _ hword⟩
      · rw [haliased]
        exact styleKeys_aliased hbs (KeyBinding.aliased_of_mem_ofQuery haliased) _ none
      · cases haliased : q.primaryAlias with
        | true =>
          exact styleKeys_aliased_iff hbs (KeyBinding.aliased_of_mem_ofQuery haliased) _ none
        | false =>
          refine (styleKeys_unaliased_iff hbs _).trans ?_
          change _ ↔ ∀ word ∈ ["FROM", target.naming s], _
          rw [forall_mem_cons, forall_mem_singleton]
    · obtain ⟨s, t, hsources⟩ : ∃ s t, q.sources = [s, t] := by
        obtain ⟨s, rest, hsources, -, hrest⟩ := map_eq_cons_iff.1 hnames
        obtain ⟨t, rfl, -⟩ := map_eq_singleton_iff.1 hrest
        exact ⟨s, t, hsources⟩
      have hbsAliased : ∀ b ∈ KeyBinding.ofQuery q target.options.keyPath, b.aliasName ≠ "" :=
        KeyBinding.aliased_of_mem_ofQuery haliased
      rw [hf, hnames]
      exact ⟨rfl, haliased.symm, fun _ => styleKeys_aliased hbs hbsAliased left (some j),
        styleKeys_aliased_iff hbs hbsAliased left (some j), fun word hword =>
          hkeys.styleKeys_word_iff (.pair hsources haliased) _ hword⟩

/-- A query for all rows of a table that has the name of its key column. -/
def symbolRows : Query :=
  Query.Draft.build
    { sources := [{ typeName := "Symbol", kind := .table
                    columns := [{ name := "Symbol", type := .unknown, keyOrder := some 0 }] }] } 0

/-- The statement of that query. -/
def symbolText : String :=
  "CREATE STREAM IF NOT EXISTS c WITH (KAFKA_TOPIC='c', KEY_FORMAT='AVRO', VALUE_FORMAT='AVRO')" ++
    " AS\nSELECT *\nFROM KEY->SYMBOL\nEMIT CHANGES;"

/-- The statement reads from a key path in place of the table. -/
theorem source_names_lost_symbolRows :
    symbolRows.HasKeyTexts ∧
    (({} : Compiler).create ⟨0⟩ symbolRows { name := "c" } (Memo.start none)).1 =
      .ok symbolText ∧
    ∃ d,
      ({} : Compiler).Composes ⟨0⟩ symbolRows (.create { name := "c" }) (Memo.start none) d ∧
      symbolText.toList = d.text symbolRows ∧ d.raw.source.names = ["Symbol"] ∧
      (d.plan.statement symbolRows d.raw).clauses.source ≠
        (d.raw.source.mapCondition (styleKeys (KeyBinding.ofQuery symbolRows .plain))).sql := by
  have hkeys : symbolRows.HasKeyTexts := by decide +kernel
  have hrun : (({} : Compiler).create ⟨0⟩ symbolRows { name := "c" } (Memo.start none)).1 =
      .ok symbolText := by decide +kernel
  obtain ⟨d, hd, htext, hnames, haliased, -, hkept, hword⟩ :=
    source_names_kept_iff {} ⟨0⟩ symbolRows { name := "c" } (Memo.start none) symbolText hkeys hrun
  have hsymbol : d.raw.source.names = ["Symbol"] := hnames
  have htaken : ∃ s ∈ symbolRows.sources, s.Takes false .plain "Symbol" :=
    ⟨_, mem_cons_self, fun hplain => Bool.noConfusion hplain.2,
      .inr ⟨rfl, "SYMBOL", by decide +kernel, by decide⟩⟩
  refine ⟨hkeys, hrun, d, hd, htext, hsymbol, fun hclause => ?_⟩
  have hmem : "Symbol" ∈ d.raw.source.words := by
    rw [FromClause.words, haliased, hsymbol]
    decide +kernel
  obtain ⟨s, hs, htakes⟩ := htaken
  exact (hword "Symbol" (all_eq_true.1 (by decide))).1 (hkept.1 hclause _ hmem) s hs htakes

end StreamQuery
