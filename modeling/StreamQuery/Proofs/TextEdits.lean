import StreamQuery.Proofs.FirstMatch
import StreamQuery.Proofs.StatementEdits

/-!
# Literals under the edits of a statement

The edits of a finished statement as a list.  `TextEdit.runAll_literal` follows a string literal
through it: each edit leaves it if it has found its place before, and else makes of it what it makes
of the literal alone.  `WindowedTarget.runAll_edits` and `HoppingTarget.runAll_edits` say that the
edits of windowed statements are such lists.
-/

namespace StreamQuery

open Text

/-! ## Lists of edits -/

/-- An edit that does to a literal what it does to it alone, unless it is done before it. -/
structure TextEdit where
  run : List Char → List Char
  /-- The edit is done in the text before a literal. -/
  isDone : List Char → Bool
  literal_edits : ∀ before lit post, IsQuoted lit →
    IsQuoted (if isDone before then lit else run lit) ∧ ∃ before' post',
      Edits run before lit post before' (if isDone before then lit else run lit) post'

namespace TextEdit

/-- An edit that acts everywhere and does not reach across marks. -/
def everywhere (f : List Char → List Char) (hf : QuoteLocal f) : TextEdit where
  run := f
  isDone _ := false
  literal_edits before lit post hlit := by
    obtain ⟨hquoted, before', post', hedits, -⟩ := hf.edits hlit before post
    exact ⟨hquoted, before', post', hedits⟩

/-- An edit that acts at the first place it finds. -/
def once (look : List Char → List Char → Placement.Look) (hlook : Placement.LookLocal look) :
    TextEdit where
  run := Placement.editFirst look 0 []
  isDone before := Placement.finds look 0 [] (before ++ ['\''])
  literal_edits before lit post hlit := by
    obtain ⟨_, before', post', rfl, hquoted, hedits⟩ := hlook.edits before post hlit
    exact ⟨hquoted, before', post', hedits⟩

/-- The text that an edit writes before a literal. -/
def before (e : TextEdit) (s : List Char) : List Char :=
  (e.run (s ++ ['\''])).dropLast

/-- The text that an edit writes for a literal behind `s`. -/
def literal (e : TextEdit) (s lit : List Char) : List Char :=
  if e.isDone s then lit else e.run lit

variable (es : List TextEdit) {lit : List Char}

/-- What an edit writes for a text with a literal in it. -/
lemma run_literal (e : TextEdit) (s post : List Char) (hlit : IsQuoted lit) :
    IsQuoted (e.literal s lit) ∧ ∃ post',
      e.run (s ++ lit ++ post) = e.before s ++ e.literal s lit ++ post' := by
  obtain ⟨hquoted, before', post', hedits⟩ := e.literal_edits s lit post hlit
  have hbefore : e.before s = before' := by
    rw [before, hedits.mark, List.dropLast_concat]
  exact ⟨hquoted, post', by rw [hbefore, hedits.text]; rfl⟩

/-- A list of edits, one after another. -/
def runAll (es : List TextEdit) (s : List Char) : List Char :=
  es.foldl (fun s e => e.run s) s

/-- The text that a list of edits writes before a literal. -/
def beforeAll (es : List TextEdit) (s : List Char) : List Char :=
  es.foldl (fun s e => e.before s) s

/-- The text that a list of edits writes for a literal behind `s`. -/
def literalAll : List TextEdit → (s lit : List Char) → List Char
  | [], _, lit => lit
  | e :: es, s, lit => literalAll es (e.before s) (e.literal s lit)

/-- What a list of edits writes for a text with a literal in it. -/
theorem runAll_literal (s post : List Char) (hlit : IsQuoted lit) : ∃ post',
      runAll es (s ++ lit ++ post) = beforeAll es s ++ literalAll es s lit ++ post' := by
  induction es generalizing s lit post with
  | nil => exact ⟨post, rfl⟩
  | cons e es ih =>
    obtain ⟨hquoted, post₁, hrun⟩ := e.run_literal s post hlit
    obtain ⟨post₂, hrest⟩ := ih (e.before s) post₁ hquoted
    refine ⟨post₂, ?_⟩
    rw [runAll, List.foldl_cons, hrun]
    exact hrest

lemma literalAll_of_kept (s : List Char) (hkept : ∀ e ∈ es, e.run lit = lit) :
    literalAll es s lit = lit := by
  induction es generalizing s with
  | nil => rfl
  | cons e es ih =>
    have hliteral : e.literal s lit = lit := by
      rw [literal, hkept e (List.mem_cons_self ..), ite_self]
    rw [literalAll, hliteral]
    exact ih (e.before s) (List.forall_mem_cons.1 hkept).2

lemma runAll_append (others : List TextEdit) (s : List Char) :
    runAll (es ++ others) s = runAll others (runAll es s) :=
  List.foldl_append ..

end TextEdit

/-! ## The edits of windowed statements -/

namespace WindowOverrides

/-- The emit mode is replaced everywhere. -/
def emitEdit (emit : String) : TextEdit :=
  .everywhere (substitute (literalRule "EMIT CHANGES".toList emit.toList))
    (literalRule_local (by decide) (by decide)).substitute

/-- The edits that put in emit mode, source and window. -/
def edits (o : WindowOverrides) (window : Window) : List TextEdit :=
  (o.emit.bind nonBlank).toList.map emitEdit ++
    (o.input.bind nonBlank).toList.map
      (fun input => .once _ (Placement.retargetLook_local input.toList)) ++
    [.once _ (Placement.placeLook_local window.sql.toList)]

/-- Emit mode, source and window are put in by these edits. -/
lemma runAll_edits (o : WindowOverrides) (window : Window) (sql : String) :
    TextEdit.runAll (o.edits window) sql.toList = (o.apply window sql).toList := by
  have hemit : ∀ emit text : String, TextEdit.runAll [emitEdit emit] text.toList =
      (replaceAll "EMIT CHANGES" emit text).toList := by
    intro emit text
    rw [replaceAll, String.toList_ofList]
    rfl
  have hinput : ∀ input text : String,
      TextEdit.runAll [.once _ (Placement.retargetLook_local input.toList)] text.toList =
        (Placement.retarget input text).toList := by
    intro input text
    rw [Placement.retarget, String.toList_ofList, Placement.retargetFrom_eq]
    rfl
  have hplace : ∀ text : String,
      TextEdit.runAll [.once _ (Placement.placeLook_local window.sql.toList)] text.toList =
        (Placement.place window.sql text).toList := by
    intro text
    rw [Placement.place, String.toList_ofList, Placement.placeFrom_eq]
    rfl
  unfold edits apply
  rw [TextEdit.runAll_append, TextEdit.runAll_append]
  cases o.emit.bind nonBlank with
  | none =>
    cases o.input.bind nonBlank with
    | none => exact hplace sql
    | some input => exact (congrArg _ (hinput input sql)).trans (hplace _)
  | some emit =>
    cases o.input.bind nonBlank with
    | none => exact (congrArg _ (hemit emit sql)).trans (hplace _)
    | some input =>
      have hboth := (congrArg _ (hemit emit sql)).trans (hinput input _)
      exact (congrArg _ hboth).trans (hplace _)

end WindowOverrides

namespace WindowStart

/-- The edits that take window starts out of a hopping statement. -/
def edits (asksForStart : Bool) : List TextEdit :=
  (if asksForStart then [] else [.everywhere strip strip_parts]) ++
    [.everywhere toEnd toEnd_parts, .everywhere strip strip_parts,
      .everywhere dropDangling dropDangling_parts]

/-- Window starts are taken out by these edits. -/
lemma runAll_edits (asksForStart : Bool) (sql : String) :
    TextEdit.runAll (edits asksForStart) sql.toList = (dropAll asksForStart sql).toList := by
  rw [dropAll, String.toList_ofList]
  cases asksForStart with
  | true => rfl
  | false => rfl

end WindowStart

/-- The edits of a windowed statement. -/
def WindowedTarget.edits (t : WindowedTarget) (q : Query) (projection : Option Lambda) :
    List TextEdit :=
  t.overrides.edits (t.window q.grace) ++
    if t.hop.isSome then WindowStart.edits (projection.any Lambda.callsWindowStart) else []

/-- A windowed statement is edited by these edits. -/
lemma WindowedTarget.runAll_edits (t : WindowedTarget) (q : Query) (projection : Option Lambda)
    (sql : String) :
    TextEdit.runAll (t.edits q projection) sql.toList = (t.edit q projection sql).toList := by
  rw [edits, TextEdit.runAll_append, t.overrides.runAll_edits, edit]
  split
  · rw [WindowStart.runAll_edits]
  · rfl

/-- The edits of a statement over the query's own hopping window. -/
def HoppingTarget.edits (t : HoppingTarget) (q : Query) (window : Window) : List TextEdit :=
  t.overrides.edits window ++ WindowStart.edits (q.projection.any Lambda.callsWindowStart)

/-- A statement over the query's own hopping window is edited by these edits. -/
lemma HoppingTarget.runAll_edits (t : HoppingTarget) (q : Query) (window : Window) (sql : String) :
    TextEdit.runAll (t.edits q window) sql.toList = (t.edit q window sql).toList := by
  rw [edits, TextEdit.runAll_append, t.overrides.runAll_edits, edit, WindowStart.runAll_edits]

end StreamQuery
