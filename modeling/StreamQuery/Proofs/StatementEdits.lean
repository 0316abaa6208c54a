import StreamQuery.Proofs.KeyPathEdits
import StreamQuery.Statement.Windowed

/-!
# Edits of finished statements

Replacing the emit mode and taking out window starts act everywhere in a finished statement, and do
not reach across quotation marks.  A fixed text is replaced by a rule (`literalRule_local`).  Window
starts are found by scanners, which are put together from small ones; `ScanLocal` and `Advancing`
are what they have in common.
-/

namespace StreamQuery

open Text List

/-! ## Fixed texts -/

namespace Text

/-- Replacing a text without a mark does not reach across marks. -/
lemma literalRule_local {part written : List Char} (hpart : '\'' ∉ part) (hne : part ≠ []) :
    (literalRule part written).Local where
  ahead before u post hu := by
    unfold literalRule
    rw [isPrefixOf_append hpart hu]
  behind _ _ _ := rfl
  taken before y n w h := by
    unfold literalRule at h
    split at h
    · next hmatch =>
      cases h
      obtain ⟨rest, hrest⟩ := isPrefixOf_iff_prefix.1 hmatch
      exact length_le_of_mark hrest.symm hpart
    · cases h
  still before rest n w h := by
    unfold literalRule at h
    split at h
    · next hmatch =>
      obtain ⟨after, hafter⟩ := isPrefixOf_iff_prefix.1 hmatch
      have hzero := length_le_of_mark (y := []) hafter.symm hpart
      exact absurd (eq_nil_of_length_eq_zero (Nat.le_zero.1 hzero)) hne
    · cases h
  atEnd before n w h := by
    unfold literalRule at h
    split at h
    · next hmatch => exact absurd (prefix_nil.1 (List.isPrefixOf_iff_prefix.1 hmatch)) hne
    · cases h

end Text

/-! ## Scanners -/

namespace WindowStart

/-- A scanner that does not look across a mark and does not pass over one. -/
structure ScanLocal (scan : List Char → Option (List Char)) : Prop where
  ahead : ∀ u post, '\'' ∈ u → scan (u ++ post) = (scan u).map (· ++ post)
  split : ∀ s after, scan s = some after → ∃ m, s = m ++ after ∧ '\'' ∉ m

namespace ScanLocal

variable {f g : List Char → Option (List Char)}

lemma mem (hf : ScanLocal f) {u after : List Char} (h : f u = some after) (hu : '\'' ∈ u) :
    '\'' ∈ after := by
  obtain ⟨m, rfl, hm⟩ := hf.split u after h
  exact (mem_append.1 hu).resolve_left hm

lemma bind (hf : ScanLocal f) (hg : ScanLocal g) : ScanLocal fun s => (f s).bind g where
  ahead u post hu := by
    simp only [hf.ahead u post hu]
    cases hafter : f u with
    | none => rfl
    | some after => exact hg.ahead after post (hf.mem hafter hu)
  split s after h := by
    obtain ⟨between, hbetween, hafter⟩ := Option.bind_eq_some_iff.1 h
    obtain ⟨m, rfl, hm⟩ := hf.split s between hbetween
    obtain ⟨n, rfl, hn⟩ := hg.split between after hafter
    refine ⟨m ++ n, (append_assoc ..).symm, ?_⟩
    rw [mem_append, not_or]
    exact ⟨hm, hn⟩

/-- A scanner that asks for something of what it leaves. -/
lemma filter (hf : ScanLocal f) {p : List Char → Bool}
    (hp : ∀ u post, '\'' ∈ u → p (u ++ post) = p u) :
    ScanLocal fun s => (f s).filter p where
  ahead u post hu := by
    simp only [hf.ahead u post hu]
    cases hafter : f u with
    | none => rfl
    | some after =>
      simp only [Option.map_some, Option.filter, hp after post (hf.mem hafter hu)]
      split
      · rfl
      · rfl
  split s after h := hf.split s after (Option.filter_eq_some_iff.1 h).1

lemma optional (hf : ScanLocal f) : ScanLocal fun s => some ((f s).getD s) where
  ahead u post hu := by
    simp only [hf.ahead u post hu]
    cases f u with
    | none => rfl
    | some after => rfl
  split s after h := by
    cases hafter : f s with
    | none =>
      rw [hafter] at h
      cases h
      exact ⟨[], rfl, not_mem_nil⟩
    | some rest =>
      rw [hafter] at h
      cases h
      exact hf.split s _ hafter

lemma dropFolded? {word : List Char} (hword : '\'' ∉ word) : ScanLocal (Text.dropFolded? word) where
  ahead _ post hu := dropFolded?_append hword hu post
  split s after h := by
    obtain ⟨m, hm, -, hmark⟩ := dropFolded?_split h
    exact ⟨m, hm, hmark hword⟩

/-- A run of characters that are no marks, if the text is as asked. -/
lemma dropWhile {p : Char → Bool} (hp : p '\'' = false) {ask : List Char → Bool}
    (hask : ∀ u post, '\'' ∈ u → ask (u ++ post) = ask u) :
    ScanLocal fun s => if ask s then some (s.dropWhile p) else none where
  ahead u post hu := by
    simp only [hask u post hu, dropWhile_append_of_mem hp hu]
    split
    · rfl
    · rfl
  split s after h := by
    split at h
    · cases h
      exact ⟨s.takeWhile p, (takeWhile_append_dropWhile ..).symm, not_mem_takeWhile hp s⟩
    · cases h

lemma dropPrefix {part : List Char} (hpart : '\'' ∉ part) :
    ScanLocal fun s => if part.isPrefixOf s then some (s.drop part.length) else none where
  ahead u post hu := by
    simp only [isPrefixOf_append hpart hu]
    split
    · next hmatch =>
      obtain ⟨after, rfl⟩ := isPrefixOf_iff_prefix.1 hmatch
      rw [append_assoc, drop_left, drop_left, Option.map_some]
    · rfl
  split s after h := by
    split at h
    · next hmatch =>
      obtain ⟨rest, rfl⟩ := isPrefixOf_iff_prefix.1 hmatch
      rw [drop_left] at h
      cases h
      exact ⟨part, rfl, hpart⟩
    · cases h

end ScanLocal

lemma head?_any_append (p : Char → Bool) (u post : List Char) (hu : '\'' ∈ u) :
    (u ++ post).head?.any p = u.head?.any p := by
  rw [head?_append_of_mem hu]

lemma afterGap?_local : ScanLocal afterGap? :=
  ScanLocal.dropWhile (by decide) (head?_any_append _)

lemma afterName?_local : ScanLocal afterName? :=
  ScanLocal.dropWhile rfl (head?_any_append _)

lemma not_startsWord_append (u post : List Char) (hu : '\'' ∈ u) :
    (!startsWord (u ++ post)) = !startsWord u := by
  unfold startsWord
  rw [head?_append_of_mem hu]

lemma afterComma_local : ScanLocal fun s => some (afterComma s) where
  ahead u post hu := by
    have hspace : isSpace '\'' = false := by decide
    have hmem := mem_dropWhile hspace hu
    unfold afterComma
    rw [dropWhile_append_of_mem hspace hu]
    generalize u.dropWhile isSpace = v at hmem
    obtain _ | ⟨c, v⟩ := v
    · cases hmem
    by_cases hc : c = ','
    · subst hc
      have hv := (mem_cons.1 hmem).resolve_left (by decide)
      simp only [cons_append, dropWhile_append_of_mem hspace hv, Option.map_some]
    · simp [hc]
  split s after h := by
    have hspace : isSpace '\'' = false := by decide
    have hs := takeWhile_append_dropWhile (p := isSpace) (l := s)
    have hmark := not_mem_takeWhile hspace s
    unfold afterComma at h
    split at h
    · next rest hrest =>
      cases h
      refine ⟨s.takeWhile isSpace ++ ',' :: rest.takeWhile isSpace, ?_, ?_⟩
      · rw [append_assoc, cons_append, takeWhile_append_dropWhile, ← hrest, hs]
      · have hmark' := not_mem_takeWhile hspace rest
        simp [hmark, hmark']
    · cases h
      exact ⟨s.takeWhile isSpace, hs.symm, hmark⟩

/-- A scanner that does not reach across marks and moves on. -/
structure Advancing (scan : List Char → Option (List Char)) : Prop where
  scanLocal : ScanLocal scan
  moves : ∀ s, scan s ≠ some s

namespace Advancing

lemma bind {f g : List Char → Option (List Char)} (hf : Advancing f) (hg : ScanLocal g) :
    Advancing fun s => (f s).bind g where
  scanLocal := hf.scanLocal.bind hg
  moves s h := by
    obtain ⟨between, hbetween, hafter⟩ := Option.bind_eq_some_iff.1 h
    obtain ⟨m, hm, -⟩ := hf.scanLocal.split s between hbetween
    obtain ⟨n, hn, -⟩ := hg.split between s hafter
    have hlength := congrArg List.length hm
    rw [hn, length_append, length_append] at hlength
    have hnil : n = [] := eq_nil_of_length_eq_zero (by omega)
    rw [hnil, nil_append] at hn
    exact hf.moves s (hn ▸ hbetween)

lemma dropFolded? {word : List Char} (hword : '\'' ∉ word) (hne : word ≠ []) :
    Advancing (Text.dropFolded? word) where
  scanLocal := .dropFolded? hword
  moves s h := by
    obtain ⟨m, hm, hlength, -⟩ := dropFolded?_split h
    have hsize := congrArg List.length hm
    rw [length_append] at hsize
    exact hne (eq_nil_of_length_eq_zero (by omega))

/-- A fixed text that is not empty. -/
lemma dropPrefix {part : List Char} (hpart : '\'' ∉ part) (hne : part ≠ []) :
    Advancing fun s => if part.isPrefixOf s then some (s.drop part.length) else none where
  scanLocal := .dropPrefix hpart
  moves s h := by
    split at h
    · next hmatch =>
      obtain ⟨rest, rfl⟩ := isPrefixOf_iff_prefix.1 hmatch
      rw [drop_left] at h
      have hsize := congrArg List.length (Option.some.inj h)
      rw [length_append] at hsize
      exact hne (eq_nil_of_length_eq_zero (by omega))
    · cases h

end Advancing

/-- The rule of a scanner that moves on does not reach across marks. -/
lemma Advancing.scanRule {scan : List Char → Option (List Char)} (hscan : Advancing scan)
    (written : String) : (scanRule scan written).Local where
  ahead before u post hu := by
    unfold WindowStart.scanRule
    rw [hscan.scanLocal.ahead u post hu]
    cases scan u with
    | none => rfl
    | some after =>
      have hlength : (u ++ post).length - (after ++ post).length = u.length - after.length := by
        rw [length_append, length_append]
        omega
      simp only [Option.map_some, hlength]
  behind _ _ _ := rfl
  taken before y n w h := by
    obtain ⟨after, hafter, hfound⟩ := Option.map_eq_some_iff.1 h
    cases hfound
    obtain ⟨m, hm, hmark⟩ := hscan.scanLocal.split _ _ hafter
    have hlength := length_le_of_mark hm hmark
    rw [hm, length_append]
    omega
  still before rest n w h := by
    obtain ⟨after, hafter, -⟩ := Option.map_eq_some_iff.1 h
    obtain ⟨m, hm, hmark⟩ := hscan.scanLocal.split _ _ hafter
    have hzero := Nat.le_zero.1 (length_le_of_mark (y := []) hm hmark)
    rw [eq_nil_of_length_eq_zero hzero, nil_append] at hm
    exact absurd (hm ▸ hafter) (hscan.moves _)
  atEnd before n w h := by
    obtain ⟨after, hafter, -⟩ := Option.map_eq_some_iff.1 h
    obtain ⟨m, hm, -⟩ := hscan.scanLocal.split _ _ hafter
    rw [(append_eq_nil_iff.1 hm.symm).2] at hafter
    exact absurd hafter (hscan.moves [])

/-- White space that ends a line. -/
def afterLine? (s : List Char) : Option (List Char) :=
  if (s.takeWhile isBlank).getLast? == some '\n' then some (s.dropWhile isBlank) else none

/-- A comma before FROM is a comma, a line end and the word. -/
lemma afterDangling?_eq (s : List Char) : afterDangling? s =
    (if ",".toList.isPrefixOf s then some (s.drop 1) else none).bind fun s =>
      (afterLine? s).bind fun s =>
        (if "FROM".toList.isPrefixOf s then some (s.drop 4) else none).filter
          fun after => !startsWord after := by
  unfold afterDangling? afterLine?
  split
  · next rest =>
    have hcomma : ",".toList.isPrefixOf (',' :: rest) := by simp
    rw [if_pos hcomma, Option.bind_some, drop_one, tail_cons]
    dsimp only
    cases (rest.takeWhile isBlank).getLast? == some '\n' with
    | false => rfl
    | true =>
      rw [if_pos rfl, Option.bind_some, Bool.true_and]
      cases "FROM".toList.isPrefixOf (rest.dropWhile isBlank) with
      | false => rfl
      | true => rfl
  · next hcomma =>
    rw [if_neg]
    · rfl
    · intro hmatch
      obtain ⟨rest, hrest⟩ := isPrefixOf_iff_prefix.1 hmatch
      exact hcomma rest hrest.symm

lemma windowStart_local : Advancing (Text.dropFolded? "WINDOWSTART".toList) :=
  .dropFolded? (by decide) (by decide)

lemma as_local : ScanLocal (Text.dropFolded? "AS".toList) :=
  .dropFolded? (by decide)

/-- Taking out window starts does not reach across marks. -/
lemma strip_parts : QuoteLocal strip := by
  have hcolumn : Advancing afterColumn? := windowStart_local.bind (afterGap?_local.bind
    (as_local.bind (afterGap?_local.bind (afterName?_local.bind afterComma_local))))
  exact (hcolumn.scanRule _).substitute

/-- Turning window starts into window ends does not reach across marks. -/
lemma toEnd_parts : QuoteLocal toEnd := by
  have hend : ScanLocal (Text.dropFolded? "ENDTS".toList) := .dropFolded? (by decide)
  have hnamed : Advancing afterEnd? := windowStart_local.bind (afterGap?_local.bind
    ((as_local.bind afterGap?_local).optional.bind (hend.filter not_startsWord_append)))
  exact (hnamed.scanRule _).substitute

/-- Taking out a comma before FROM does not reach across marks. -/
lemma dropDangling_parts : QuoteLocal dropDangling := by
  have hcomma := Advancing.dropPrefix (show '\'' ∉ ",".toList by decide) (by decide)
  have hline : ScanLocal afterLine? := ScanLocal.dropWhile (by decide) fun u post hu => by
    rw [takeWhile_append_of_mem (by decide) hu]
  have hfrom := (ScanLocal.dropPrefix (show '\'' ∉ "FROM".toList by decide)).filter
    (p := fun after => !startsWord after) not_startsWord_append
  have hdangling : Advancing afterDangling? := by
    rw [funext afterDangling?_eq]
    exact hcomma.bind (hline.bind hfrom)
  exact (hdangling.scanRule _).substitute

end WindowStart

end StreamQuery
