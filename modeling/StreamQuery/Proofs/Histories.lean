import StreamQuery.Proofs.MemoCells

/-!
# Histories of compilations

A query is compiled step after step, and the memo is what one step leaves to the next.
`memo_cells_of_history` is the invariant of the two cells over all histories.

`answer_after_history_iff` says when a history can be seen in the answer of a later step: the plan
is never seen, since it is coherent, but the outline is.  A windowed statement over a hub leaves the
outline behind, and a later step over another source then reads its columns through the plan of a
hub that it does not read.
-/

namespace StreamQuery

open List

/-- A query under compilation, with the memo of the steps so far. -/
structure Session where
  query : Query
  memo : Memo

namespace Session

/-- A query before compilation, with the outline that its builder was given. -/
def start (q : Query) (given : Option Outline) : Session :=
  ⟨q, Memo.start given⟩

/-- One step under a scope. -/
def step (s : Session) (c : Compiler) (e : Scope × Step) : Except Fault Output × Session :=
  let (answer, memo) := c.run e.1 s.query e.2 s.memo
  (answer, { s with memo })

/-- The session after a sequence of steps. -/
def after (s : Session) (c : Compiler) (history : List (Scope × Step)) : Session :=
  history.foldl (fun s e => (s.step c e).2) s

lemma after_eq (s : Session) (c : Compiler) (history : List (Scope × Step)) :
    s.after c history = ⟨s.query, c.runAll s.query history s.memo⟩ := by
  induction history generalizing s with
  | nil => rfl
  | cons e rest ih => exact ih (s.step c e).2

end Session

namespace Compiler

variable (c : Compiler) (q : Query)

variable {m : Memo}

/-! ## Runs -/

lemma runAll_cons (e : Scope × Step) (rest : List (Scope × Step)) (m : Memo) :
    c.runAll q (e :: rest) m = c.runAll q rest (c.run e.1 q e.2 m).2 := rfl

lemma runAll_append (earlier later : List (Scope × Step)) (m : Memo) :
    c.runAll q (earlier ++ later) m = c.runAll q later (c.runAll q earlier m) :=
  foldl_append

lemma coherent_runAll (history : List (Scope × Step)) (hm : m.Coherent q) :
    (c.runAll q history m).Coherent q := by
  induction history generalizing m with
  | nil => exact hm
  | cons e rest ih => exact ih ((c.run_settles e.1 q e.2).coherent hm)

lemma extends_runAll (history : List (Scope × Step)) (hm : m.Coherent q) :
    m.Extends (c.runAll q history m) := by
  induction history generalizing m with
  | nil => exact Memo.Extends.refl m
  | cons e rest ih =>
    have hstep := c.run_settles e.1 q e.2
    exact (hstep.extends_snd hm).trans (ih (hstep.coherent hm))

/-- A step that passes its checks and reads a hub fills an empty outline cell. -/
def fillsOutline (scope : Scope) (step : Step) : Bool :=
  (c.outlineAfter scope q step none).isSome

lemma outlineAfter_none (scope : Scope) (step : Step) :
    c.outlineAfter scope q step none =
      if c.fillsOutline q scope step then q.hubOutline? else none := by
  have hfill : ∀ input, c.fillOutline q input none = q.hubOutline? ∨
      c.fillOutline q input none = none := by
    intro input
    unfold fillOutline
    cases (inputName? q input).any c.settings.isHubSource
    · exact Or.inr rfl
    · exact Or.inl rfl
  have hwindowed : ∀ target, c.windowedOutline scope q target none = q.hubOutline? ∨
      c.windowedOutline scope q target none = none := by
    intro target
    unfold windowedOutline
    cases target.check scope q with
    | error e => exact Or.inr rfl
    | ok u => exact hfill _
  have hafter : c.outlineAfter scope q step none = q.hubOutline? ∨
      c.outlineAfter scope q step none = none := by
    cases step with
    | windowed target => exact hwindowed target
    | all nameFor =>
      unfold outlineAfter
      cases q.windows with
      | nil => exact Or.inr rfl
      | cons timeframe rest => exact hwindowed _
    | _ => exact Or.inr rfl
  unfold fillsOutline
  rcases hafter with h | h <;> rw [h]
  · cases q.hubOutline? <;> rfl
  · rfl

/-- A history leaves an empty outline cell empty until some step fills it with the projection's
outline. -/
lemma outline_runAll_none (history : List (Scope × Step)) (hm : m.Coherent q)
    (hnone : m.outline = none) :
    (c.runAll q history m).outline =
      if history.any (fun e => c.fillsOutline q e.1 e.2) then q.hubOutline? else none := by
  induction history generalizing m with
  | nil => exact hnone
  | cons e rest ih =>
    have hstep := c.run_settles e.1 q e.2
    have hout : (c.run e.1 q e.2 m).2.outline =
        if c.fillsOutline q e.1 e.2 then q.hubOutline? else none := by
      rw [hstep.outline hm, hnone, outlineAfter_none]
    rw [runAll_cons, any_cons]
    cases hfills : c.fillsOutline q e.1 e.2 with
    | false =>
      rw [hfills] at hout
      exact ih (hstep.coherent hm) hout
    | true =>
      rw [hfills] at hout
      have hsome : (c.outlineAfter e.1 q e.2 none).isSome := hfills
      rw [outlineAfter_none, hfills] at hsome
      obtain ⟨o, ho⟩ := Option.isSome_iff_exists.1 hsome
      have hkept := (c.extends_runAll q rest (hstep.coherent hm)).outline o (hout.trans ho)
      rw [hkept]
      exact ho.symm

lemma outline_runAll_some (history : List (Scope × Step)) (o : Outline) :
    (c.runAll q history (Memo.start (some o))).outline = some o :=
  (c.extends_runAll q history (Memo.coherent_start q _)).outline o rfl

end Compiler

/-! ## The cells over all histories -/

/-- Over every history, whether its steps succeed or fail: a filled cell keeps what it holds, and
the query stays as it is; the outline cell holds the outline that the builder was given, or else
nothing or that of the projection as it reads a hub; the plan cell holds nothing or the plan of that
outline; and a step that is run again answers the same and leaves both cells alone. -/
theorem memo_cells_of_history (c : Compiler) (q : Query) (given : Option Outline)
    (history : List (Scope × Step)) :
    ((∀ earlier later, history = earlier ++ later →
        ((Session.start q given).after c earlier).memo.Extends
          ((Session.start q given).after c history).memo) ∧
      ((Session.start q given).after c history).query = q) ∧
    ((∀ o, given = some o →
        ((Session.start q given).after c history).memo.outline = some o) ∧
      (given = none →
        ((Session.start q given).after c history).memo.outline = none ∨
        ∃ projection, q.projection = some projection ∧
          ((Session.start q given).after c history).memo.outline =
            some (Outline.ofProjection projection.forHub true))) ∧
    (∀ plan, ((Session.start q given).after c history).memo.hubPlan = some plan →
      ∃ outline columns, ((Session.start q given).after c history).memo.outline = some outline ∧
        outline.hubInput = true ∧ q.extras.hubColumns = .ok columns ∧
          plan = HubPlan.ofOutline outline columns) ∧
    ∀ e : Scope × Step,
      (((Session.start q given).after c history).step c e).2.step c e =
        ((Session.start q given).after c history).step c e := by
  have hstart : (Memo.start given).Coherent q := Memo.coherent_start q given
  have hcoh : (c.runAll q history (Memo.start given)).Coherent q :=
    c.coherent_runAll q history hstart
  simp only [Session.after_eq, Session.start]
  refine ⟨⟨?_, trivial⟩, ⟨?_, ?_⟩, hcoh, ?_⟩
  · rintro earlier later rfl
    rw [c.runAll_append]
    exact c.extends_runAll q later (c.coherent_runAll q earlier hstart)
  · rintro o rfl
    exact c.outline_runAll_some q history o
  · rintro rfl
    rw [c.outline_runAll_none q history hstart rfl]
    cases hprojection : q.projection with
    | none => simp [Query.hubOutline?, hprojection]
    | some projection =>
      cases history.any fun e => c.fillsOutline q e.1 e.2
      · exact Or.inl rfl
      · exact Or.inr ⟨projection, rfl, by simp [Query.hubOutline?, hprojection]⟩
  · intro e
    have hreplay := (c.run_settles e.1 q e.2).replay hcoh
    simp only [Session.step, hreplay]

/-! ## Histories and later answers -/

/-- A copy of a query, built anew, which has a number of its own. -/
def Query.copy (q : Query) (id : Nat) : Query :=
  { q with id }

/-- The first windowed statement of a step. -/
def Step.firstWindowed? (q : Query) : Step → Option WindowedTarget
  | .windowed target => some target
  | .all nameFor => q.windows.head?.map (Compiler.timeframeTarget nameFor)
  | _ => none

/-- The result type that the columns of a step are converted to. -/
def Step.resultType? : Step → Option ResultType
  | .create target => target.options.resultType
  | .windowed target => target.options.resultType
  | .hopping target => target.target.options.resultType
  | .all _ => none
  | .insert _ => none

namespace Compiler

variable (c : Compiler) (q : Query)

variable {scope scope' : Scope} {id : Nat}

lemma checkTarget_copy (hscope : scope'.covers (q.copy id) = scope.covers q) (name : String) :
    checkTarget scope' (q.copy id) name = checkTarget scope q name := by
  unfold checkTarget checkScope
  rw [hscope]

lemma run_copy (hscope : scope'.covers (q.copy id) = scope.covers q) (step : Step) (m : Memo) :
    c.run scope' (q.copy id) step m = c.run scope q step m := by
  have hcheck := checkTarget_copy q hscope
  have hcreate : ∀ target, c.create scope' (q.copy id) target m = c.create scope q target m := by
    intro target
    unfold create
    rw [hcheck]
    rfl
  have hwindowed : ∀ target m,
      c.windowed scope' (q.copy id) target m = c.windowed scope q target m := by
    intro target m
    unfold windowed WindowedTarget.check
    rw [hcheck]
    rfl
  have hhopping : ∀ target,
      c.hopping scope' (q.copy id) target m = c.hopping scope q target m := by
    intro target
    unfold hopping HoppingTarget.window
    rw [hcheck]
    rfl
  have hallOf : ∀ nameFor timeframes m, c.allOf scope' (q.copy id) nameFor timeframes m =
      c.allOf scope q nameFor timeframes m := by
    intro nameFor timeframes
    induction timeframes with
    | nil => exact fun m => rfl
    | cons timeframe rest ih =>
      intro m
      simp only [allOf_cons, Compilation.andThen, hwindowed, ih]
  cases step with
  | create target => simp only [run, hcreate]
  | windowed target => simp only [run, hwindowed]
  | hopping target => simp only [run, hhopping]
  | all nameFor =>
    simp only [run, all, hallOf]
    rfl
  | insert target =>
    unfold run insert checkScope
    rw [hscope]
    rfl

/-- After a history, a step answers as with the outline that is left. -/
lemma answer_runAll (given : Option Outline) (history : List (Scope × Step)) (scope : Scope)
    (step : Step) :
    (c.run scope q step (c.runAll q history (Memo.start given))).1 =
      (c.run scope q step (Memo.start
        (if given.isNone && history.any (fun e => c.fillsOutline q e.1 e.2) then q.hubOutline?
          else given))).1 := by
  have hstart : (Memo.start given).Coherent q := Memo.coherent_start q given
  rw [(c.run_settles scope q step).answer (c.coherent_runAll q history hstart)]
  cases given with
  | none =>
    rw [c.outline_runAll_none q history hstart rfl]
    rfl
  | some o => rw [c.outline_runAll_some]; rfl

/-- A history is seen by a step only through the outline cell. -/
lemma answer_runAll_eq_iff (given : Option Outline) (history : List (Scope × Step)) (scope : Scope)
    (step : Step) (hscope : scope'.covers (q.copy id) = scope.covers q) :
    (c.run scope q step (c.runAll q history (Memo.start given))).1 =
        (c.run scope' (q.copy id) step (Memo.start given)).1 ↔
      (given = none → (∃ e ∈ history, c.fillsOutline q e.1 e.2) →
        (c.run scope q step (Memo.start q.hubOutline?)).1 =
          (c.run scope q step (Memo.start none)).1) := by
  rw [c.run_copy q hscope, c.answer_runAll]
  cases given with
  | some o => simp
  | none =>
    cases hany : history.any fun e => c.fillsOutline q e.1 e.2 with
    | false =>
      have hnever : ¬ ∃ e ∈ history, c.fillsOutline q e.1 e.2 := by
        rw [← any_eq_true, hany]
        exact Bool.false_ne_true
      simp only [Option.isNone_none, Bool.true_and, Bool.false_eq_true, if_false, true_iff]
      intro _ hsome
      exact absurd hsome hnever
    | true =>
      have hsome : ∃ e ∈ history, c.fillsOutline q e.1 e.2 := any_eq_true.1 hany
      simp only [Option.isNone_none, Bool.true_and, if_true]
      exact ⟨fun h _ _ => h, fun h => h trivial hsome⟩

/-- A step fills the empty outline cell exactly if there is a projection and the step, or its first
timeframe, is a windowed statement that passes its checks and reads a hub. -/
lemma fillsOutline_iff (scope : Scope) (step : Step) :
    c.fillsOutline q scope step ↔
      q.projection.isSome ∧ ∃ target, step.firstWindowed? q = some target ∧
        target.check scope q = .ok () ∧
        (inputName? q target.overrides.input).any c.settings.isHubSource := by
  have hwindowed : ∀ target, (c.windowedOutline scope q target none).isSome ↔
      q.projection.isSome ∧ target.check scope q = .ok () ∧
        (inputName? q target.overrides.input).any c.settings.isHubSource := by
    intro target
    unfold windowedOutline fillOutline Query.hubOutline?
    cases target.check scope q with
    | error e => simp
    | ok u =>
      cases (inputName? q target.overrides.input).any c.settings.isHubSource <;>
        cases q.projection <;> simp
  unfold fillsOutline outlineAfter Step.firstWindowed?
  cases step with
  | windowed target => simp [hwindowed]
  | all nameFor =>
    cases q.windows with
    | nil => simp
    | cons timeframe rest => simp [hwindowed]
  | _ => simp

/-- A step that fills the outline cell answers as if it had found it filled. -/
lemma answer_of_fillsOutline {step : Step} (hfills : c.fillsOutline q scope step) :
    (c.run scope q step (Memo.start q.hubOutline?)).1 =
      (c.run scope q step (Memo.start none)).1 := by
  have hafter := c.outlineAfter_none q scope step
  rw [hfills] at hafter
  have hanswer := (c.run_settles scope q step).answer_fill none
  rw [hafter] at hanswer
  exact hanswer

lemma hubProjection_hubOutline (input : Option String) :
    (c.hubProjection q input (Memo.start q.hubOutline?)).1 =
      (c.hubProjection q input (Memo.start none)).1 := by
  unfold hubProjection Query.hubOutline?
  cases q.projection with
  | none => rfl
  | some projection =>
    cases inputName? q input with
    | none => rfl
    | some name => cases hhub : c.settings.isHubSource name <;> simp [hhub, Outline.ofProjection]

/-- A step with a result type answers as with the outline cell filled. -/
lemma answer_of_resultType {step : Step} (htyped : step.resultType?.isSome) :
    (c.run scope q step (Memo.start q.hubOutline?)).1 =
      (c.run scope q step (Memo.start none)).1 := by
  -- with a result type, the memo is not looked at
  have hassemble : ∀ p : CreatePlan, p.target.options.resultType.isSome → ∀ m m',
      (c.assemble q p m).1 = (c.assemble q p m').1 := by
    intro p hp m m'
    obtain ⟨result, hresult⟩ := Option.isSome_iff_exists.1 hp
    have hselect : ∀ groupBy, (c.select q p groupBy m).1 = (c.select q p groupBy m').1 := by
      intro groupBy
      unfold select
      cases p.projection with
      | none => rfl
      | some projection => simp only [selection, hresult]
    unfold assemble rawClauses
    cases c.source q p.target.naming q.primaryAlias with
    | error e => rfl
    | ok source =>
      cases c.groupBy q q.primaryAlias with
      | error e => rfl
      | ok groupBy => simp only [hselect groupBy]
  cases step with
  | create target =>
    simp only [run, create]
    cases checkTarget scope q target.name with
    | error e => rfl
    | ok u => simp only [hassemble (createPlan q target) htyped (Memo.start q.hubOutline?)
        (Memo.start none)]
  | windowed target =>
    simp only [run]
    cases hcheck : target.check scope q with
    | error e => simp only [windowed, hcheck]
    | ok u =>
      simp only [c.windowed_eq scope q target hcheck, windowedBody, Memo.start_outline,
        c.hubProjection_hubOutline]
      rw [hassemble (target.plan q _) htyped]
  | hopping target =>
    simp only [run, hopping]
    cases target.window scope q with
    | error e => rfl
    | ok window => simp only [hassemble (target.plan q) htyped (Memo.start q.hubOutline?)
        (Memo.start none)]
  | all nameFor => simp [Step.resultType?] at htyped
  | insert target => rfl

end Compiler

/-- The answer of a step after a history is its answer on a copy of the query exactly if the builder
supplied an outline, or no step of the history filled the outline cell, or the step answers the same
with the outline of the projection. The cell is filled by windowed statements that pass their checks
and read a hub. Such statements, insertions and statements with a result type always answer the
same. -/
theorem answer_after_history_iff (c : Compiler) (q : Query) (given : Option Outline)
    (history : List (Scope × Step)) (scope : Scope) (step : Step) (id : Nat) (scope' : Scope)
    (hscope : scope'.covers (q.copy id) = scope.covers q) :
    ((c.run scope q step (c.runAll q history (Memo.start given))).1 =
        (c.run scope' (q.copy id) step (Memo.start given)).1 ↔
      (given = none → (∃ e ∈ history, c.fillsOutline q e.1 e.2 = true) →
        (c.run scope q step (Memo.start q.hubOutline?)).1 =
          (c.run scope q step (Memo.start none)).1)) ∧
    (∀ scope step, c.fillsOutline q scope step = true ↔
      q.projection.isSome ∧ ∃ target, step.firstWindowed? q = some target ∧
        target.check scope q = .ok () ∧
        (Compiler.inputName? q target.overrides.input).any c.settings.isHubSource = true) ∧
    (c.fillsOutline q scope step = true ∨ (∃ target, step = .insert target) ∨
        step.resultType?.isSome →
      (c.run scope q step (c.runAll q history (Memo.start given))).1 =
        (c.run scope' (q.copy id) step (Memo.start given)).1) := by
  have hiff := c.answer_runAll_eq_iff q given history scope step hscope
  refine ⟨hiff, c.fillsOutline_iff q, fun hblind => hiff.2 fun _ _ => ?_⟩
  rcases hblind with hfills | ⟨target, rfl⟩ | htyped
  · exact c.answer_of_fillsOutline q hfills
  · rfl
  · exact c.answer_of_resultType q htyped

/-- A query for a column of its rows, with a constant mark on each. -/
def markedRows : Query :=
  Query.Draft.build
    { sources := [{ typeName := "T" }]
      projection := some
        { params := [⟨"x", .unknown⟩]
          body := .record none
            [("A", .member (.param ⟨"x", .unknown⟩) "A" .unknown false),
              ("N", .const (.int 1))] } } 0

/-- A windowed statement over a hub. -/
def hubMinutes : WindowedTarget :=
  { name := "w", timeframe := "1m", overrides := { input := some "h_1s_rows" } }

/-- After a windowed statement over a hub, the marked rows lose their mark. -/
theorem answer_after_history_markedRows :
    (Scope.mk 1).covers (markedRows.copy 1) = (Scope.mk 0).covers markedRows ∧
    ({} : Compiler).fillsOutline markedRows ⟨0⟩ (.windowed hubMinutes) = true ∧
    (({} : Compiler).run ⟨0⟩ markedRows (.create { name := "c" })
        (({} : Compiler).runAll markedRows [(⟨0⟩, .windowed hubMinutes)] (Memo.start none))).1 ≠
      (({} : Compiler).run ⟨1⟩ (markedRows.copy 1) (.create { name := "c" })
        (Memo.start none)).1 := by
  have hscope : (Scope.mk 1).covers (markedRows.copy 1) = (Scope.mk 0).covers markedRows := rfl
  have hfills : ({} : Compiler).fillsOutline markedRows ⟨0⟩ (.windowed hubMinutes) := by
    decide +kernel
  refine ⟨hscope, hfills, fun hsame => ?_⟩
  have hseen := (answer_after_history_iff {} markedRows none [(⟨0⟩, .windowed hubMinutes)] ⟨0⟩
    (.create { name := "c" }) 1 ⟨1⟩ hscope).1.1 hsame rfl
  have hcreate := hseen ⟨_, mem_singleton_self _, hfills⟩
  revert hcreate
  decide +kernel

end StreamQuery
