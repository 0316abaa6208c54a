import StreamQuery.Proofs.Retargeting

/-!
# Windows behind sources after function calls

A FROM also stands inside function calls, as in `EXTRACT(YEAR FROM CAST(Ts AS TIMESTAMP))`.  The
search for a place takes the word behind it for the name of a source, but an opening bracket neither
begins an alias nor ends a source, so the search goes on (`spot?_called`).  A text in which every
FROM stands before a call is therefore passed over as a whole (`firstSpot?_front`).
-/

namespace StreamQuery.Placement

open Text List

/-! ## The words of a statement -/

/-- A name in ASCII: letters, digits and underscores, with no digit first. -/
def IsIdentifier (name : List Char) : Prop :=
  (name.head?.any fun c => c.isAlpha || c == '_') = true ∧ ∀ c ∈ name, isNamePart c = true

/-- It can be checked whether a text is a name in ASCII. -/
instance (name : List Char) : Decidable (IsIdentifier name) :=
  decidable_of_iff ((name.head?.any fun c => c.isAlpha || c == '_') = true ∧
    name.all isNamePart = true) (and_congr_right fun _ => all_eq_true)

/-- One of the words that end a source, ignoring case. -/
def IsKeyword (word : List Char) : Prop :=
  ∃ keyword ∈ keywords, SameFolded word keyword.toList

/-- It can be checked whether a word ends a source. -/
instance (word : List Char) : Decidable (IsKeyword word) :=
  inferInstanceAs (Decidable (∃ keyword ∈ keywords, _))

/-- White space, of which there is some. -/
def IsGap (gap : List Char) : Prop :=
  gap ≠ [] ∧ ∀ c ∈ gap, isBlank c = true

/-- A semicolon, or a keyword as a whole word behind white space. -/
def IsClauseEnd (post : List Char) : Prop :=
  (∃ rest, post = ';' :: rest) ∨
    ∃ gap word rest, post = gap ++ (word ++ rest) ∧ IsGap gap ∧ IsKeyword word ∧
      startsWord rest = false

/-- White space, and a word with an opening bracket right behind it. -/
def IsCall (text : List Char) : Prop :=
  ∃ gap name rest, text = gap ++ (name ++ '(' :: rest) ∧ IsGap gap ∧ name ≠ [] ∧ IsWordText name

/-- Every FROM of a text, as a whole word and ignoring case, has a call behind it. -/
def FromBeforeCalls (text : List Char) : Prop :=
  ∀ before word after, text = before ++ (word ++ after) → SameFolded word "FROM".toList →
    startsWord before.reverse = false → startsWord after = false → IsCall after

/-- White space in front ends where a word begins. -/
lemma span_gap {gap word : List Char} (hgap : IsGap gap) (hword : startsWord word) :
    (gap ++ word).takeWhile isBlank = gap ∧ (gap ++ word).dropWhile isBlank = word := by
  have hblank : word.head?.any isBlank = false := by
    cases word with
    | nil => rfl
    | cons c rest => exact isBlank_of_isWord hword
  exact ⟨takeWhile_run hgap.2 hblank, dropWhile_run hgap.2 hblank⟩

/-- A call is white space, a word and a bracket, each as long as it can be. -/
lemma isCall_iff {text : List Char} : IsCall text ↔
    (text.takeWhile isBlank).isEmpty = false ∧
      startsWord (text.dropWhile isBlank) ∧
      ((text.dropWhile isBlank).dropWhile isWord).head? = some '(' := by
  constructor
  · rintro ⟨gap, name, rest, rfl, hgap, hne, hname⟩
    have hstarts := hname.startsWord hne ('(' :: rest)
    have hbracket : startsWord ('(' :: rest) = false := (rfl : isWord '(' = false)
    obtain ⟨htake, hdrop⟩ := span_gap hgap hstarts
    rw [htake, hdrop, dropWhile_run hname hbracket, isEmpty_eq_false_iff]
    exact ⟨hgap.1, hstarts, rfl⟩
  · rintro ⟨hgap, hstarts, hbracket⟩
    obtain ⟨rest, hrest⟩ := head?_eq_some_iff.1 hbracket
    refine ⟨text.takeWhile isBlank, (text.dropWhile isBlank).takeWhile isWord, rest, ?_,
      ⟨isEmpty_eq_false_iff.1 hgap, all_eq_true.1 all_takeWhile⟩, ?_,
      all_eq_true.1 all_takeWhile⟩
    · rw [← hrest, takeWhile_append_dropWhile, takeWhile_append_dropWhile]
    · intro hnil
      cases hnamed : text.dropWhile isBlank with
      | nil =>
        rw [hnamed] at hstarts
        cases hstarts
      | cons c named =>
        rw [hnamed] at hstarts hnil
        rw [takeWhile_cons_of_pos (show isWord c = true from hstarts)] at hnil
        cases hnil

/-- It can be checked whether a call comes first. -/
instance (text : List Char) : Decidable (IsCall text) :=
  decidable_of_iff _ isCall_iff.symm

/-- Every FROM is looked at by its position. -/
lemma fromBeforeCalls_iff {text : List Char} : FromBeforeCalls text ↔
    ∀ n < text.length, SameFolded ((text.drop n).take 4) "FROM".toList →
      startsWord (text.take n).reverse = false → startsWord (text.drop (n + 4)) = false →
      IsCall (text.drop (n + 4)) := by
  constructor
  · intro h n _ hfold hbefore hafter
    refine h (text.take n) ((text.drop n).take 4) (text.drop (n + 4)) ?_ hfold hbefore hafter
    rw [← drop_drop, take_append_drop, take_append_drop]
  · rintro h before word after rfl hfold hbefore hafter
    have hfour : word.length = 4 := hfold.length_eq
    have hword : ((before ++ (word ++ after)).drop before.length).take 4 = word := by
      rw [drop_left, ← hfour, take_left]
    have hbehind : (before ++ (word ++ after)).drop (before.length + 4) = after := by
      rw [← drop_drop, drop_left, ← hfour, drop_left]
    have hn : before.length < (before ++ (word ++ after)).length := by
      simp only [length_append]
      omega
    have hcall := h before.length hn
    rw [hword, hbehind, take_left] at hcall
    exact hcall hfold hbefore hafter

/-- It can be checked whether every FROM of a text stands before a call. -/
instance (text : List Char) : Decidable (FromBeforeCalls text) :=
  decidable_of_iff _ fromBeforeCalls_iff.symm

lemma IsIdentifier.isWordText {name : List Char} (h : IsIdentifier name) : IsWordText name :=
  fun c hc => isWord_of_isNamePart (h.2 c hc)

lemma IsIdentifier.isName {name : List Char} (h : IsIdentifier name) : isName name := by
  have hstart : ∀ c : Char, (c.isAlpha || c == '_') → isNameStart c := by
    intro c hc
    have hascii : ∀ n < 0x80, ((Char.ofNat n).isAlpha || Char.ofNat n == '_') →
        isNameStart (Char.ofNat n) := by decide
    have hpart : isNamePart c := by
      unfold isNamePart Char.isAlphanum
      rw [Bool.or_eq_true] at hc ⊢
      exact hc.imp_left fun halpha => by rw [halpha, Bool.true_or]
    exact ascii_induction (P := fun c => (c.isAlpha || c == '_') → isNameStart c)
      hascii (isNamePart_ascii hpart) hc
  rw [Placement.isName, Bool.and_eq_true, all_eq_true]
  refine ⟨?_, h.isWordText⟩
  cases name with
  | nil => exact absurd h.1 (by decide)
  | cons c name => exact hstart c h.1

lemma IsClauseEnd.endsSource {post : List Char} (h : IsClauseEnd post) :
    endsSource post ∧ startsWord post = false := by
  rcases h with ⟨rest, rfl⟩ | ⟨gap, word, rest, rfl, hgap, hkeyword, hrest⟩
  · exact ⟨rfl, (rfl : isWord ';' = false)⟩
  · obtain ⟨keyword, hmem, hfold⟩ := hkeyword
    have hletters : keywords.all (fun word => word.toList.all isNamePart && word != "") := by
      decide
    have hkeyword := all_eq_true.1 hletters keyword hmem
    rw [Bool.and_eq_true, all_eq_true] at hkeyword
    have hword : IsWordText word := hfold.isWordText hkeyword.1
    have hne : word ≠ [] := by
      rintro rfl
      have hempty : keyword = "" := String.toList_eq_nil_iff.1
        (eq_nil_of_length_eq_zero hfold.length_eq.symm)
      rw [hempty] at hkeyword
      exact absurd hkeyword.2 (by decide)
    obtain ⟨c, gap', hcons⟩ := exists_cons_of_ne_nil hgap.1
    have hblank : isBlank c := hgap.2 c (hcons ▸ mem_cons_self ..)
    have hstarts := hword.startsWord hne rest
    refine ⟨?_, ?_⟩
    · have hhead : (gap ++ (word ++ rest)).head?.any isBlank := by
        rw [hcons]
        exact hblank
      have hstartsKeyword : startsKeyword (word ++ rest) :=
        (startsKeyword_iff hword hrest).2 ⟨keyword, hmem, hfold⟩
      unfold Placement.endsSource
      rw [(span_gap hgap hstarts).2, hhead, hstartsKeyword, Bool.and_true, Bool.or_true]
    · rw [hcons]
      exact isWord_of_isBlank hblank

/-! ## A FROM inside a call -/

/-- What the search finds at a FROM. -/
lemma sourceAt?_found {before text : List Char} {s : SourceName}
    (h : sourceAt? before text = some s) :
    ∃ word behind, text = word ++ behind ∧ SameFolded word "FROM".toList ∧
      startsWord before = false ∧ behind.head?.any isBlank ∧
      s = ⟨word ++ behind.takeWhile isBlank, (behind.dropWhile isBlank).takeWhile isWord,
        (behind.dropWhile isBlank).dropWhile isWord⟩ := by
  unfold sourceAt? at h
  split at h
  · next hboundary =>
    split at h
    · cases h
    · next behind hbehind =>
      obtain ⟨word, rfl, hfold⟩ := dropFolded?_eq_some_iff.1 hbehind
      dsimp only at h
      split at h
      · next hnamed =>
        have hfour : word.length = 4 := hfold.length_eq
        have htake : (word ++ behind).take 4 = word := by rw [← hfour, take_left]
        rw [Bool.and_eq_true, Bool.not_eq_true', isEmpty_eq_false_iff] at hnamed
        rw [htake] at h
        refine ⟨word, behind, rfl, hfold, ?_, ?_, (Option.some.inj h).symm⟩
        · rw [wordBoundary, hfold.startsWord (by decide)] at hboundary
          simpa using hboundary
        · cases behind with
          | nil => exact absurd rfl hnamed.1
          | cons c behind =>
            by_contra hblank
            exact hnamed.1 (takeWhile_cons_of_neg hblank)
      · cases h
  · cases h

/-- There is no place behind a word with a bracket. -/
lemma spot?_called (lead name rest : List Char) :
    SourceName.spot? ⟨lead, name, '(' :: rest⟩ = none := by
  have halias : alias? ('(' :: rest) = none := rfl
  have hends : endsSource ('(' :: rest) = false := rfl
  unfold SourceName.spot?
  rw [halias]
  exact if_neg (by rw [hends]; decide)

section

variable {pre rest : List Char}

/-- In a text where every FROM stands before a call, a source name before its line break has no
place. -/
lemma spot?_of_fromBeforeCalls (hpre : FromBeforeCalls pre) {n : Nat} (hn : n < pre.length)
    {s : SourceName} (hs : sourceAt? (pre.take n).reverse (pre.drop n ++ '\n' :: rest) = some s) :
    s.spot? = none ∧ n + (s.lead.length + s.name.length) ≤ pre.length := by
  obtain ⟨word, behind, htext, hfold, hbefore, hblank, rfl⟩ := sourceAt?_found hs
  -- the line break is no letter of FROM
  obtain ⟨after, hdrop, rfl⟩ : ∃ after, pre.drop n = word ++ after ∧
      behind = after ++ '\n' :: rest := by
    rcases append_eq_append_iff.1 htext with ⟨z, hz, hnext⟩ | ⟨z, hdrop, hnext⟩
    · cases z with
      | nil => exact ⟨[], by rw [hz, append_nil, append_nil], hnext.symm⟩
      | cons c z =>
        obtain ⟨rfl, -⟩ := List.cons.inj hnext
        have hword : isWord '\n' := hfold.isWordText (all_eq_true.1 (by decide)) '\n'
          (hz ▸ mem_append_right _ (mem_cons_self ..))
        exact absurd hword (Bool.eq_false_iff.1 rfl)
    · exact ⟨z, hdrop, hnext⟩
  have hapart : startsWord after = false := by
    cases after with
    | nil => rfl
    | cons c after => exact isWord_of_isBlank hblank
  have hsplit : pre = pre.take n ++ (word ++ after) := by rw [← hdrop, take_append_drop]
  obtain ⟨gap, name, tail, rfl, hgap, hne, hname⟩ :=
    hpre _ word after hsplit hfold hbefore hapart
  have hbracket : ∀ tail, startsWord ('(' :: tail) = false := fun _ => (rfl : isWord '(' = false)
  have hbehind : gap ++ (name ++ '(' :: tail) ++ '\n' :: rest =
      gap ++ (name ++ '(' :: (tail ++ '\n' :: rest)) := by simp
  obtain ⟨htake, hnamed⟩ := span_gap hgap (hname.startsWord hne ('(' :: (tail ++ '\n' :: rest)))
  rw [hbehind, htake, hnamed, takeWhile_run hname (hbracket _), dropWhile_run hname (hbracket _)]
  refine ⟨spot?_called _ _ _, ?_⟩
  have hlength := congrArg List.length hsplit
  have hn' : (pre.take n).length = n := length_take_of_le hn.le
  simp only [length_append, length_cons, hn'] at hlength ⊢
  omega

/-- A text in which every FROM stands before a call comes before the place. -/
lemma firstSpot?_front (hpre : FromBeforeCalls pre) :
    firstSpot? 0 [] (pre ++ '\n' :: rest) =
      (firstSpot? 0 (pre ++ ['\n']).reverse rest).map (Prod.map (pre ++ ['\n'] ++ ·) id) := by
  have hpassed : ∀ n < (pre ++ ['\n']).length, ∀ s,
      sourceAt? (((pre ++ ['\n']).take n).reverse ++ []) ((pre ++ ['\n']).drop n ++ rest) = some s →
        s.spot? = none ∧ n + (s.lead.length + s.name.length) ≤ (pre ++ ['\n']).length := by
    intro n hn s hs
    rw [length_append, length_singleton] at hn ⊢
    by_cases hlast : n = pre.length
    · rw [hlast, drop_left] at hs
      have hnone := sourceAt?_of_fold (c := '\n') (by decide)
        (((pre ++ ['\n']).take pre.length).reverse ++ []) rest
      rw [singleton_append, hnone] at hs
      cases hs
    · have hn : n < pre.length := by omega
      rw [append_nil, take_append_of_le_length hn.le,
        drop_append_of_le_length hn.le, append_assoc, singleton_append] at hs
      obtain ⟨hspot, hlength⟩ := spot?_of_fromBeforeCalls hpre hn hs
      exact ⟨hspot, by omega⟩
  have hpass := firstSpot?_passed hpassed 0 (Nat.zero_le _)
  rw [append_assoc, singleton_append, append_nil] at hpass
  exact hpass

end

/-- The alias of a source, behind a space. -/
def aliasPart (aliasName : Option String) : String :=
  (aliasName.map fun a => " " ++ a).getD ""

/-- A window is inserted right behind a source with its alias, and nothing else is changed, if a
semicolon or a keyword that ends a source follows, the alias is no such keyword, and every FROM in
the text before stands before a call. -/
theorem place_behind_source (pre source post window : String) (aliasName : Option String)
    (hsource : IsIdentifier source.toList)
    (halias : ∀ a ∈ aliasName, IsIdentifier a.toList ∧ ¬ IsKeyword a.toList)
    (hpost : IsClauseEnd post.toList) (hpre : FromBeforeCalls pre.toList) :
    place window (pre ++ "\n" ++ "FROM " ++ source ++ aliasPart aliasName ++ post) =
      pre ++ "\n" ++ "FROM " ++ source ++ aliasPart aliasName ++ " " ++ window ++ post := by
  obtain ⟨hends, hapart⟩ := hpost.endsSource
  -- the place behind the source with its alias
  have hspot : SourceName.spot? ⟨"FROM ".toList, source.toList,
      (aliasPart aliasName).toList ++ post.toList⟩ =
        some ("FROM ".toList ++ (source.toList ++ (aliasPart aliasName).toList), post.toList) ∧
      startsWord ((aliasPart aliasName).toList ++ post.toList) = false := by
    cases aliasName with
    | none => exact ⟨spot?_name (.inl rfl) hapart hends, hapart⟩
    | some a =>
      obtain ⟨hname, hkeyword⟩ := halias a rfl
      have hpart : (aliasPart (some a)).toList = ' ' :: a.toList := String.toList_append
      rw [hpart]
      exact ⟨spot?_aliased hname.1 hname.isWordText hkeyword hapart hends,
        (rfl : isWord ' ' = false)⟩
  have hbefore : startsWord (pre.toList ++ ['\n']).reverse = false := by
    rw [reverse_append]
    exact (rfl : isWord '\n' = false)
  have hfound := sourceAt?_name hbefore hsource.isName hspot.2
  have hfirst : firstSpot? 0 (pre.toList ++ ['\n']).reverse
      ("FROM ".toList ++ (source.toList ++ ((aliasPart aliasName).toList ++ post.toList))) =
        some ("FROM ".toList ++ (source.toList ++ (aliasPart aliasName).toList), post.toList) := by
    rw [show "FROM ".toList ++ (source.toList ++ ((aliasPart aliasName).toList ++ post.toList)) =
      'F' :: ("ROM ".toList ++ (source.toList ++ ((aliasPart aliasName).toList ++ post.toList)))
      from rfl] at hfound ⊢
    rw [firstSpot?, hfound]
    dsimp only
    rw [hspot.1]
  have htext : (pre ++ "\n" ++ "FROM " ++ source ++ aliasPart aliasName ++ post).toList =
      pre.toList ++ '\n' :: ("FROM ".toList ++
        (source.toList ++ ((aliasPart aliasName).toList ++ post.toList))) := by
    simp [String.toList_append]
  have hplace : spotIn? (pre ++ "\n" ++ "FROM " ++ source ++ aliasPart aliasName ++ post).toList =
      some (pre.toList ++ ['\n'] ++ ("FROM ".toList ++
        (source.toList ++ (aliasPart aliasName).toList)), post.toList) := by
    rw [htext, spotIn?, firstSpot?_front hpre, hfirst]
    rfl
  apply String.toList_injective
  rw [toList_place, hplace]
  simp [String.toList_append]

/-- The year has a FROM of its own, and the window goes behind the source. -/
theorem place_behind_source_yearlyTrades :
    place "WINDOW TUMBLING (SIZE 1 MINUTES)"
        ("SELECT EXTRACT(YEAR FROM CAST(t.Ts AS TIMESTAMP)) AS Y" ++ "\n" ++ "FROM " ++ "Trades" ++
          aliasPart (some "t") ++ "\nGROUP BY t.Symbol\nEMIT CHANGES;") =
      "SELECT EXTRACT(YEAR FROM CAST(t.Ts AS TIMESTAMP)) AS Y" ++ "\n" ++ "FROM " ++ "Trades" ++
        aliasPart (some "t") ++ " " ++ "WINDOW TUMBLING (SIZE 1 MINUTES)" ++
        "\nGROUP BY t.Symbol\nEMIT CHANGES;" := by
  have halias : ∀ a ∈ some "t", IsIdentifier a.toList ∧ ¬ IsKeyword a.toList := by
    rintro a ⟨⟩
    decide
  have hpost : IsClauseEnd "\nGROUP BY t.Symbol\nEMIT CHANGES;".toList :=
    .inr ⟨['\n'], "GROUP".toList, " BY t.Symbol\nEMIT CHANGES;".toList, by decide,
      ⟨by decide, all_eq_true.1 (by decide)⟩, by decide, by decide⟩
  have hpre : FromBeforeCalls "SELECT EXTRACT(YEAR FROM CAST(t.Ts AS TIMESTAMP)) AS Y".toList := by
    decide +kernel
  exact place_behind_source _ "Trades" _ _ (some "t") (by decide) halias hpost hpre

end StreamQuery.Placement
