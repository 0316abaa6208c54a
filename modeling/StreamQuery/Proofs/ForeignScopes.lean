import StreamQuery.Proofs.Histories
import StreamQuery.Proofs.Timeframes

/-!
# Scopes of other queries

Every statement checks its scope before anything else, so a step under the scope of another query is
refused, whatever else is wrong with it, and leaves the memo alone (`Compiler.run_foreign`).  Then
so does any history of such steps (`Session.after_foreign`).  But a query without timeframes has no
statement that would check the scope, and the step for all timeframes succeeds.
-/

namespace StreamQuery

open List

variable {scope : Scope} {q : Query}

/-! ## The check -/

lemma Scope.covers_ofQuery {other : Query} (h : other.id ≠ q.id) :
    (ofQuery other).covers q = false :=
  beq_eq_false_iff_ne.2 h

lemma Compiler.checkTarget_foreign (h : scope.covers q = false) (name : String) :
    checkTarget scope q name = .error .foreignScope := by
  unfold checkTarget checkScope
  rw [h]
  rfl

lemma WindowedTarget.check_foreign (h : scope.covers q = false) (target : WindowedTarget) :
    target.check scope q = .error .foreignScope := by
  unfold check
  rw [Compiler.checkTarget_foreign h]
  rfl

lemma HoppingTarget.window_foreign (h : scope.covers q = false) (target : HoppingTarget) :
    target.window scope q = .error .foreignScope := by
  unfold window
  rw [Compiler.checkTarget_foreign h]
  rfl

/-! ## One step -/

/-- The step is for the timeframes of a query that has none. -/
def Step.IsEmptyBatch (q : Query) (step : Step) : Prop :=
  q.windows = [] ∧ ∃ nameFor, step = .all nameFor

namespace Compiler

variable (c : Compiler)

/-- The statements for timeframes are refused at the first one. -/
lemma allOf_foreign (h : scope.covers q = false) (nameFor : String → String)
    {timeframes : List String} (hsome : timeframes ≠ []) (memo : Memo) :
    c.allOf scope q nameFor timeframes memo = (.error .foreignScope, memo) := by
  obtain ⟨timeframe, rest, rfl⟩ := exists_cons_of_ne_nil hsome
  rw [allOf, c.windowed_of_check_error scope q (WindowedTarget.check_foreign h _)]

/-- A step under the scope of another query is refused and leaves the memo alone, unless there is no
statement to check the scope. -/
theorem run_foreign (h : scope.covers q = false) {step : Step} (hstep : ¬ step.IsEmptyBatch q)
    (memo : Memo) : c.run scope q step memo = (.error .foreignScope, memo) := by
  cases step with
  | create target =>
    have hrefused : c.create scope q target memo = (.error .foreignScope, memo) := by
      unfold create
      rw [checkTarget_foreign h]
    rw [run, hrefused]
    rfl
  | windowed target =>
    rw [run, c.windowed_of_check_error scope q (target.check_foreign h)]
    rfl
  | hopping target =>
    have hrefused : c.hopping scope q target memo = (.error .foreignScope, memo) := by
      unfold hopping
      rw [target.window_foreign h]
    rw [run, hrefused]
    rfl
  | all nameFor =>
    have hwindows : q.windows ≠ [] := fun hnone => hstep ⟨hnone, nameFor, rfl⟩
    rw [run, all, c.allOf_foreign h nameFor hwindows]
    rfl
  | insert target =>
    have hrefused : c.insert scope q target = .error .foreignScope := by
      unfold insert checkScope
      rw [h]
      rfl
    rw [run, hrefused]
    rfl

lemma run_emptyBatch (scope : Scope) {step : Step} (hstep : step.IsEmptyBatch q) (memo : Memo) :
    c.run scope q step memo = (.ok (.many []), memo) := by
  obtain ⟨hnone, nameFor, rfl⟩ := hstep
  rw [run, all, hnone]
  rfl

lemma run_foreign_snd (h : scope.covers q = false) (step : Step) (memo : Memo) :
    (c.run scope q step memo).2 = memo := by
  by_cases hstep : step.IsEmptyBatch q
  · rw [c.run_emptyBatch scope hstep]
  · rw [c.run_foreign h hstep]

lemma run_foreign_iff (h : scope.covers q = false) (memo : Memo) :
    (∀ step, (c.run scope q step memo).1 = .error .foreignScope) ↔ q.windows ≠ [] := by
  constructor
  · intro hall hnone
    have hbatch := hall (.all fun timeframe => timeframe)
    rw [c.run_emptyBatch scope ⟨hnone, _, rfl⟩] at hbatch
    cases hbatch
  · intro hsome step
    rw [c.run_foreign h fun hstep => hsome hstep.1]

end Compiler

/-! ## Histories -/

/-- A history under scopes of other queries leaves a session as it is. -/
theorem Session.after_foreign (s : Session) (c : Compiler) {history : List (Scope × Step)}
    (h : ∀ e ∈ history, e.1.covers s.query = false) : s.after c history = s := by
  induction history with
  | nil => rfl
  | cons e rest ih =>
    have hstep : (s.step c e).2 = s := by
      unfold step
      dsimp only
      rw [c.run_foreign_snd (h e (mem_cons_self ..))]
    have hrest := ih (forall_mem_cons.1 h).2
    rw [after, foldl_cons, hstep]
    exact hrest

/-- Under the scope of another query, every step is refused with the code of a foreign scope, except
that the step for all timeframes of a query without any succeeds without a statement. The memo stays
as it is, over every history of such steps. -/
theorem foreign_scope_refused_iff (c : Compiler) (q other : Query) (h : other.id ≠ q.id)
    (memo : Memo) :
    ((∀ step, c.run (Scope.ofQuery other) q step memo = (.error .foreignScope, memo)) ↔
      q.windows ≠ []) ∧
    (∀ step, ¬ step.IsEmptyBatch q →
      c.run (Scope.ofQuery other) q step memo = (.error .foreignScope, memo)) ∧
    (∀ step, step.IsEmptyBatch q →
      c.run (Scope.ofQuery other) q step memo = (.ok (.many []), memo)) ∧
    (∀ history : List (Query × Step), (∀ e ∈ history, e.1.id ≠ q.id) →
      (Session.mk q memo).after c (history.map fun e => (Scope.ofQuery e.1, e.2)) = ⟨q, memo⟩) ∧
    Fault.foreignScope.code = "KSQL-3001" := by
  have hscope := Scope.covers_ofQuery h
  refine ⟨?_, fun step hstep => c.run_foreign hscope hstep memo,
    fun step hstep => c.run_emptyBatch _ hstep memo, fun history hforeign => ?_, rfl⟩
  · rw [← c.run_foreign_iff hscope memo]
    refine forall_congr' fun step => ⟨congrArg Prod.fst, fun hanswer => ?_⟩
    exact Prod.ext hanswer (c.run_foreign_snd hscope step memo)
  · refine Session.after_foreign _ c fun e he => ?_
    obtain ⟨e', he', rfl⟩ := mem_map.1 he
    exact Scope.covers_ofQuery (hforeign e' he')

/-- A query for all rows of a stream, under a number. -/
def allRows (id : Nat) : Query :=
  Query.Draft.build { sources := [{ typeName := "T" }] } id

/-- Under a foreign scope the step for the timeframes of this query succeeds, and a statement
without a name is refused for its scope. -/
theorem foreign_scope_refused_allRows :
    (allRows 1).id ≠ (allRows 0).id ∧ (allRows 0).windows = [] ∧
    ({} : Compiler).run (Scope.ofQuery (allRows 1)) (allRows 0) (.all fun timeframe => timeframe)
      (Memo.start none) = (.ok (.many []), Memo.start none) ∧
    ({} : Compiler).run (Scope.ofQuery (allRows 1)) (allRows 0) (.create { name := "" })
      (Memo.start none) = (.error .foreignScope, Memo.start none) ∧
    ¬ ∀ step, ({} : Compiler).run (Scope.ofQuery (allRows 1)) (allRows 0) step (Memo.start none) =
      (.error .foreignScope, Memo.start none) := by
  have hids : (allRows 1).id ≠ (allRows 0).id := by decide
  have hnone : (allRows 0).windows = [] := rfl
  obtain ⟨hiff, hrefused, hbatch, -⟩ :=
    foreign_scope_refused_iff {} (allRows 0) (allRows 1) hids (Memo.start none)
  refine ⟨hids, hnone, hbatch _ ⟨hnone, _, rfl⟩, hrefused _ ?_, fun hall => hiff.1 hall hnone⟩
  rintro ⟨-, nameFor, hstep⟩
  cases hstep

end StreamQuery
