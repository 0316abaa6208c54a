import StreamQuery.Proofs.ScalarForms

/-!
# Scalar texts are lexically closed

A scalar text is put into clauses, calls and other scalar texts.  It is closed there, whatever
quotation marks and parentheses its string constants hold, because constants are written with their
marks doubled and because the forms around them are sound.

`closed_formRelation` says that sound templates keep texts closed, and `scalar_isClosed` is the
statement for all expressions.  A brace in a constant is excluded: it could be taken for a
placeholder of the template that it is written into.
-/

namespace StreamQuery

open List Text

/-! ## Templates keep texts closed -/

/-- A text that is closed and holds no brace. -/
structure IsClosedText (s : List Char) : Prop where
  closed : isClosed s = true
  braceFree : '\x7b' ∉ s

lemma isClosedText_of_plain {s : List Char} (h : s.all Template.isPlain) : IsClosedText s := by
  have hplain : ∀ c ∈ s, c ≠ '\'' ∧ c ≠ '(' ∧ c ≠ ')' ∧ c ≠ '\x7b' := by
    intro c hc
    simpa [Template.isPlain, and_assoc] using all_eq_true.1 h c hc
  refine ⟨isClosed_iff_run.2 ?_, fun hbrace => (hplain _ hbrace).2.2.2 rfl⟩
  clear h
  induction s with
  | nil => rfl
  | cons c s ih =>
    obtain ⟨hmark, hopen, hclose, -⟩ := hplain c (mem_cons_self ..)
    rw [Reading.run_cons, Reading.step_other hmark hopen hclose]
    exact ih (forall_mem_cons.1 hplain).2

/-- A template with closed arguments is read like the template. -/
lemma Template.run_fill {args : List (List Char)} (hargs : ∀ arg ∈ args, isClosed arg)
    {t : Template} {r : Reading} (h : t.closesFrom r) : r.run (t.fill args) = some .start := by
  induction t generalizing r with
  | nil =>
    rw [closesFrom, beq_iff_eq] at h
    rw [h]
    rfl
  | cons piece t ih =>
    cases piece with
    | char c =>
      rw [closesFrom, Option.any_eq_true] at h
      obtain ⟨next, hnext, hrest⟩ := h
      rw [fill, Reading.run_cons, hnext]
      exact ih hrest
    | hole i =>
      rw [closesFrom, Bool.and_eq_true, Bool.not_eq_true'] at h
      have harg : isClosed (args.getD i []) :=
        getD_of_forall (P := fun arg => isClosed arg) rfl hargs i
      rw [fill, Reading.run_append, run_closed harg h.1]
      exact ih h.2

lemma Template.braceFree_fill {args : List (List Char)} (hargs : ∀ arg ∈ args, '\x7b' ∉ arg)
    {t : Template} (h : t.isBraceFree) : '\x7b' ∉ t.fill args := by
  induction t with
  | nil => exact not_mem_nil
  | cons piece t ih =>
    rw [isBraceFree, all_cons, Bool.and_eq_true] at h
    cases piece with
    | char c =>
      rw [fill, mem_cons, not_or]
      exact ⟨(bne_iff_ne.1 h.1).symm, ih h.2⟩
    | hole i =>
      rw [fill, mem_append, not_or]
      exact ⟨getD_of_forall not_mem_nil hargs i, ih h.2⟩

/-- Sound templates keep texts closed. -/
lemma closed_formRelation : FormRelation fun a b => a = b ∧ IsClosedText a where
  placeholderFree a b h := by
    have hfree := Template.PlaceholderFree.of_braceFree h.2.braceFree
    exact ⟨hfree, h.1 ▸ hfree⟩
  plain s hs := ⟨rfl, isClosedText_of_plain hs⟩
  fill t as bs ht _ h := by
    have hsame : as = bs := by
      rw [← forall₂_eq_eq_eq]
      exact h.imp fun a b hab => hab.1
    have hclosed : ∀ a ∈ as, IsClosedText a := by
      intro a ha
      obtain ⟨i, hi, rfl⟩ := getElem_of_mem ha
      exact (h.get hi (h.length_eq ▸ hi)).2
    refine ⟨congrArg t.fill hsame, isClosed_iff_run.2 ?_, ?_⟩
    · exact Template.run_fill (fun a ha => (hclosed a ha).closed) ht.closed
    · exact Template.braceFree_fill (fun a ha => (hclosed a ha).braceFree) ht.braceFree

/-- For closed texts, to keep step is to be the same computation. -/
lemma inStep_closed_iff {x y : Except Fault String} :
    InStep (OnTexts fun a b => a = b ∧ IsClosedText a) x y ↔
      x = y ∧ ∀ text, x = .ok text → IsClosedText text.toList := by
  constructor
  · rintro (fault | ⟨hsame, hclosed⟩)
    · exact ⟨rfl, fun text htext => by cases htext⟩
    · refine ⟨congrArg _ (String.toList_inj.1 hsame), fun text htext => ?_⟩
      cases htext
      exact hclosed
  · rintro ⟨rfl, hclosed⟩
    cases x with
    | error fault => exact .error fault
    | ok text => exact .ok ⟨rfl, hclosed text rfl⟩

/-! ## Literals -/

lemma Text.Reading.run_doubleQuotes (depth : Nat) (s : List Char) :
    run ⟨true, depth⟩ (Constant.doubleQuotes s) = some ⟨true, depth⟩ := by
  induction s with
  | nil => rfl
  | cons c s ih =>
    by_cases hmark : c = '\''
    · rw [hmark, Constant.doubleQuotes_quote]
      exact ih
    · rw [Constant.doubleQuotes_cons hmark, run_cons, step_inside hmark]
      exact ih

lemma mem_of_mem_doubleQuotes {c : Char} {s : List Char} (hc : c ≠ '\'')
    (h : c ∈ Constant.doubleQuotes s) : c ∈ s := by
  induction s with
  | nil => exact h
  | cons d s ih =>
    unfold Constant.doubleQuotes at h
    split at h
    · simp only [mem_cons, hc, false_or] at h
      exact mem_cons_of_mem _ (ih h)
    · rcases mem_cons.1 h with rfl | h
      · exact mem_cons_self ..
      · exact mem_cons_of_mem _ (ih h)

lemma isClosedText_quoted {s : String} (hs : '\x7b' ∉ s.toList) :
    IsClosedText (Constant.quoted s).toList := by
  rw [Constant.toList_quoted]
  refine ⟨isClosed_iff_run.2 ?_, ?_⟩
  · have hinside := Reading.run_doubleQuotes 0 s.toList
    rw [Reading.run_cons]
    change Reading.run ⟨true, 0⟩ (Constant.doubleQuotes s.toList ++ ['\'']) = some .start
    rw [Reading.run_append, hinside]
    rfl
  · intro hbrace
    simp only [mem_cons, mem_append, not_mem_nil, or_false] at hbrace
    rcases hbrace with hbrace | hbrace | hbrace
    · cases hbrace
    · exact hs (mem_of_mem_doubleQuotes (by decide) hbrace)
    · cases hbrace

/-! ## Expressions -/

/-- With the built-in catalog, the text of every scalar expression is closed, if the names of its
parameters are plain, its string constants have no braces, and the writer of members writes a closed
text without braces wherever it is given such a text. -/
theorem scalar_isClosed (d : Dialect) (hcatalog : d.catalog = Catalog.builtin) (member : MemberText)
    (e : Expr)
    (hparams : ∀ p, Expr.param p ∈ e.nodes →
      '\'' ∉ p.name.toList ∧ '(' ∉ p.name.toList ∧ ')' ∉ p.name.toList ∧ '\x7b' ∉ p.name.toList)
    (hstrings : ∀ value, Expr.const value ∈ e.nodes → ∀ s ∈ value.strings, '\x7b' ∉ s.toList)
    (hmember : ∀ m : Member, m.toExpr ∈ e.nodes → ∀ target text,
      (∀ t, target = .ok t → isClosed t.toList = true ∧ '\x7b' ∉ t.toList) →
      member m target = .ok text → isClosed text.toList = true ∧ '\x7b' ∉ text.toList)
    (text : String) (h : e.scalar d member = .ok text) : isClosed text.toList = true := by
  have hleaves : LeavesInStep (fun a b => a = b ∧ IsClosedText a) member member e.nodes := by
    refine ⟨fun p hp => ⟨rfl, ?_⟩, fun value hvalue s hs => ⟨rfl, ?_⟩, fun m hm x y hxy => ?_⟩
    · obtain ⟨hmark, hopen, hclose, hbrace⟩ := hparams p hp
      refine isClosedText_of_plain (all_eq_true.2 fun c hc => ?_)
      have hne : ∀ d, d ∉ p.name.toList → c ≠ d := fun d hd hcd => hd (hcd ▸ hc)
      simp [Template.isPlain, hne _ hmark, hne _ hopen, hne _ hclose, hne _ hbrace]
    · exact isClosedText_quoted (hstrings value hvalue s hs)
    · obtain ⟨rfl, hclosed⟩ := inStep_closed_iff.1 hxy
      refine inStep_closed_iff.2 ⟨rfl, fun text htext => ?_⟩
      obtain ⟨hend, hbrace⟩ := hmember m hm x text
        (fun t ht => ⟨(hclosed t ht).closed, (hclosed t ht).braceFree⟩) htext
      exact ⟨hend, hbrace⟩
  have hstep := e.scalar_inStep closed_formRelation.toFillRelation
    (hcatalog ▸ Catalog.writesForms_builtin) (closed_formRelation.parts hleaves)
  exact ((inStep_closed_iff.1 hstep).2 text h).closed

/-- As many last characters as a column says of a constant with a mark and a parenthesis. -/
def lastCharacters : Expr :=
  .call ⟨"Right", .onType, .string, none⟩ none
    [.const (.string "it's ("), .member (.param ⟨"x", .unknown⟩) "N" .unknown false]

/-- The constant is written three times, and the text around it is closed. -/
theorem scalar_isClosed_lastCharacters :
    lastCharacters.scalar {} .plain =
        .ok ("SUBSTRING('it''s (', CASE WHEN LEN('it''s (') - N + 1 < 1 THEN 1 " ++
          "ELSE LEN('it''s (') - N + 1 END, N)") ∧
      isClosed ("SUBSTRING('it''s (', CASE WHEN LEN('it''s (') - N + 1 < 1 THEN 1 " ++
        "ELSE LEN('it''s (') - N + 1 END, N)").toList = true := by
  have htext : lastCharacters.scalar {} .plain =
      .ok ("SUBSTRING('it''s (', CASE WHEN LEN('it''s (') - N + 1 < 1 THEN 1 " ++
        "ELSE LEN('it''s (') - N + 1 END, N)") := by decide +kernel
  refine ⟨htext, scalar_isClosed {} rfl .plain lastCharacters ?_ ?_ ?_ _ htext⟩
  · intro p hp
    obtain rfl : p = ⟨"x", .unknown⟩ := by
      simpa [lastCharacters, Expr.nodes, Expr.nodesOf, Expr.nodesOf?] using hp
    decide
  · intro value hvalue s hs
    obtain rfl : value = .string "it's (" := by
      simpa [lastCharacters, Expr.nodes, Expr.nodesOf, Expr.nodesOf?] using hvalue
    obtain rfl := mem_singleton.1 hs
    decide
  · rintro m hm target text - ⟨⟩
    obtain ⟨-, hname, -⟩ : m.target = .param ⟨"x", .unknown⟩ ∧ m.name = "N" ∧ _ ∧ _ := by
      simpa [lastCharacters, Expr.nodes, Expr.nodesOf, Expr.nodesOf?, Member.toExpr] using hm
    rw [hname]
    decide

end StreamQuery
