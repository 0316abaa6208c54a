import Mathlib.Data.List.Nodup
import StreamQuery.Proofs.MemoCells

/-!
# Several timeframes and each of them alone

The statements for several timeframes are compiled one after the other.  The memo that is handed on
never shows: a windowed statement answers after another one of the same input as it does on the memo
from which the first one started (`Compiler.windowed_after_windowed`).  If the memo has no plan, it
is coherent, and its outline decides; if it has one, a windowed statement fills the outline cell and
leaves the plan alone.

Hence each timeframe has the statement that it has by itself, and the fault is that of the first
timeframe that has one (`Compiler.allOf_eq_ok_iff`, `Compiler.allOf_eq_error_iff`).
-/

namespace StreamQuery

open List

/-! ## Timeframes are not repeated -/

lemma nodup_addWindow {windows : List String} (h : windows.Nodup) (timeframe : String) :
    (addWindow windows timeframe).Nodup := by
  unfold addWindow
  cases Text.nonBlank timeframe with
  | none => exact h
  | some t =>
    dsimp only
    split
    · exact h
    · next hnew =>
      have hmem : t ∉ windows := fun ht => hnew (contains_iff_mem.2 ht)
      exact nodup_append_comm.1 (nodup_cons.2 ⟨hmem, h⟩)

lemma Query.Draft.nodup_windows (d : Query.Draft) (id : Nat) : (d.build id).windows.Nodup := by
  have hfold : ∀ given windows : List String, windows.Nodup →
      (given.foldl addWindow windows).Nodup := by
    intro given
    induction given with
    | nil => exact fun _ h => h
    | cons timeframe rest ih =>
      intro windows h
      exact ih _ (nodup_addWindow h timeframe)
  exact hfold d.windows [] nodup_nil

/-! ## Memos with a plan -/

/-- The compilation leaves a memo with a plan as it is. -/
def KeepsPlanned {α : Type} (f : Memo → Compilation α) : Prop :=
  ∀ m, m.hubPlan.isSome = true → (f m).2 = m

namespace Compiler

variable (c : Compiler) (scope : Scope) (q : Query)

lemma keepsPlanned_selection (options : RenderOptions) : KeepsPlanned (selection q options) := by
  intro m hplan
  obtain ⟨plan, hplan⟩ := Option.isSome_iff_exists.1 hplan
  unfold selection
  cases options.resultType with
  | some result => rfl
  | none =>
    cases q.extras.callerPlan with
    | error e => rfl
    | ok caller =>
      cases m.hubOutline? with
      | none =>
        dsimp only
        split
        · rfl
        · rfl
      | some outline =>
        cases q.extras.hubColumns with
        | error e => rfl
        | ok available =>
          unfold Memo.withPlan
          rw [hplan]

lemma keepsPlanned_select (p : CreatePlan) (groupBy : Option String) :
    KeepsPlanned (c.select q p groupBy) := by
  intro m hplan
  unfold select
  cases p.projection with
  | none => rfl
  | some projection => exact keepsPlanned_selection q p.target.options m hplan

lemma keepsPlanned_rawClauses (p : CreatePlan) : KeepsPlanned (c.rawClauses q p) := by
  intro m hplan
  unfold rawClauses
  cases c.source q p.target.naming q.primaryAlias with
  | error e => rfl
  | ok source =>
    cases c.groupBy q q.primaryAlias with
    | error e => rfl
    | ok groupBy => exact c.keepsPlanned_select q p groupBy m hplan

/-- With a plan, a windowed statement fills the outline cell only. -/
lemma windowed_snd_of_plan {target : WindowedTarget} (hcheck : target.check scope q = .ok ())
    {m : Memo} (hplan : m.hubPlan.isSome) :
    (c.windowed scope q target m).2 =
      { m with outline := c.windowedOutline scope q target m.outline } := by
  have hfill : c.windowedOutline scope q target m.outline =
      c.fillOutline q target.overrides.input m.outline := by
    unfold windowedOutline
    rw [hcheck]
  rw [c.windowed_eq scope q target hcheck, hfill]
  exact c.keepsPlanned_rawClauses q _ { m with outline := _ } hplan

/-! ## One windowed statement after another -/

lemma windowed_of_check_error {target : WindowedTarget} {e : Fault}
    (hcheck : target.check scope q = .error e) (m : Memo) :
    c.windowed scope q target m = (.error e, m) := by
  unfold windowed
  rw [hcheck]

/-- After one of the same input, a windowed statement answers as without. -/
theorem windowed_after_windowed (first next : WindowedTarget)
    (hinput : first.overrides.input = next.overrides.input) (m : Memo) :
    (c.windowed scope q next (c.windowed scope q first m).2).1 =
      (c.windowed scope q next m).1 := by
  cases hfirst : first.check scope q with
  | error e => rw [c.windowed_of_check_error scope q hfirst]
  | ok u =>
    cases hnext : next.check scope q with
    | error e =>
      rw [c.windowed_of_check_error scope q hnext, c.windowed_of_check_error scope q hnext]
    | ok v =>
      have hsettles := c.settles_windowed scope q next
      have hfill : c.windowedOutline scope q first = c.windowedOutline scope q next := by
        funext o
        unfold windowedOutline
        rw [hfirst, hnext, hinput]
      cases hplan : m.hubPlan with
      | some plan =>
        rw [c.windowed_snd_of_plan scope q hfirst (by rw [hplan]; rfl), hfill, ← hsettles.filled m]
      | none =>
        -- without a plan the memo is coherent, and the outline decides
        have hm : m.Coherent q := fun plan h => by
          rw [hplan] at h
          cases h
        have hsettled := c.settles_windowed scope q first
        rw [hsettles.answer (hsettled.coherent hm), hsettled.outline hm, hfill,
          hsettles.answer_fill, hsettles.answer hm]

/-! ## All timeframes -/

/-- The answer for a timeframe by itself. -/
def answerAlone (nameFor : String → String) (m : Memo) (timeframe : String) :
    Except Fault String :=
  (c.windowed scope q (timeframeTarget nameFor timeframe) m).1

variable (nameFor : String → String) (m : Memo)

/-- After a windowed statement, timeframes are answered as without. -/
lemma allOf_after_windowed (timeframe : String) (rest : List String) :
    (c.allOf scope q nameFor rest
      (c.windowed scope q (timeframeTarget nameFor timeframe) m).2).1 =
        (c.allOf scope q nameFor rest m).1 := by
  induction rest generalizing m timeframe with
  | nil => rfl
  | cons next rest ih =>
    have hnext := c.windowed_after_windowed scope q (timeframeTarget nameFor timeframe)
      (timeframeTarget nameFor next) rfl m
    rw [allOf_cons]
    unfold Compilation.andThen
    rw [hnext]
    cases (c.windowed scope q (timeframeTarget nameFor next) m).1 with
    | error e => rfl
    | ok sql =>
      dsimp only
      rw [ih, ih, ih]

/-- The answer for timeframes: that of the first, then of the others. -/
lemma allOf_cons_answer (timeframe : String) (rest : List String) :
    (c.allOf scope q nameFor (timeframe :: rest) m).1 =
      (c.answerAlone scope q nameFor m timeframe).bind fun sql =>
        (c.allOf scope q nameFor rest m).1.map ((timeframe, sql) :: ·) := by
  rw [allOf_cons]
  unfold Compilation.andThen answerAlone
  rw [allOf_after_windowed]
  cases (c.windowed scope q (timeframeTarget nameFor timeframe) m).1 with
  | error e => rfl
  | ok sql => rfl

/-- The statements for timeframes are those of each by itself. -/
lemma allOf_eq_ok_iff (timeframes : List String) (statements : List (String × String)) :
    (c.allOf scope q nameFor timeframes m).1 = .ok statements ↔
      statements.map Prod.fst = timeframes ∧
        ∀ s ∈ statements, c.answerAlone scope q nameFor m s.1 = .ok s.2 := by
  induction timeframes generalizing statements with
  | nil =>
    constructor
    · intro h
      cases h
      exact ⟨rfl, fun s hs => absurd hs not_mem_nil⟩
    · rintro ⟨hnone, -⟩
      rw [map_eq_nil_iff.1 hnone]
      rfl
  | cons timeframe rest ih =>
    rw [allOf_cons_answer]
    constructor
    · intro h
      obtain ⟨sql, hfirst, h⟩ := ok_of_bind h
      cases hrest : (c.allOf scope q nameFor rest m).1 with
      | error e =>
        rw [hrest] at h
        cases h
      | ok others =>
        rw [hrest] at h
        cases h
        obtain ⟨hnames, halone⟩ := (ih others).1 hrest
        refine ⟨congrArg (timeframe :: ·) hnames, fun s hs => ?_⟩
        rcases mem_cons.1 hs with rfl | hs
        · exact hfirst
        · exact halone s hs
    · rintro ⟨hnames, halone⟩
      obtain ⟨s, others, rfl, rfl, hothers⟩ := map_eq_cons_iff.1 hnames
      have hfirst := halone s (mem_cons_self ..)
      have hrest := (ih others).2
        ⟨hothers, (forall_mem_cons.1 halone).2⟩
      rw [hfirst, hrest]
      rfl

/-- The fault for timeframes is that of the first that has one by itself. -/
lemma allOf_eq_error_iff (timeframes : List String) (e : Fault) :
    (c.allOf scope q nameFor timeframes m).1 = .error e ↔
      ∃ earlier timeframe later, timeframes = earlier ++ timeframe :: later ∧
        (∀ t ∈ earlier, ∃ sql, c.answerAlone scope q nameFor m t = .ok sql) ∧
        c.answerAlone scope q nameFor m timeframe = .error e := by
  induction timeframes with
  | nil =>
    constructor
    · intro h
      cases h
    · rintro ⟨earlier, timeframe, later, hsplit, -⟩
      have hlength := congrArg length hsplit
      simp at hlength
  | cons first rest ih =>
    rw [allOf_cons_answer]
    constructor
    · intro h
      cases hfirst : c.answerAlone scope q nameFor m first with
      | error e' =>
        rw [hfirst] at h
        cases h
        exact ⟨[], first, rest, rfl, fun t ht => absurd ht not_mem_nil, hfirst⟩
      | ok sql =>
        cases hrest : (c.allOf scope q nameFor rest m).1 with
        | ok others =>
          rw [hfirst, hrest] at h
          cases h
        | error e' =>
          rw [hfirst, hrest] at h
          cases h
          obtain ⟨earlier, timeframe, later, rfl, hearlier, hfault⟩ := ih.1 hrest
          refine ⟨first :: earlier, timeframe, later, rfl, fun t ht => ?_, hfault⟩
          rcases mem_cons.1 ht with rfl | ht
          · exact ⟨sql, hfirst⟩
          · exact hearlier t ht
    · rintro ⟨earlier, timeframe, later, hsplit, hearlier, hfault⟩
      cases earlier with
      | nil =>
        obtain ⟨rfl, rfl⟩ := cons.inj hsplit
        rw [hfault]
        rfl
      | cons t earlier =>
        obtain ⟨rfl, rfl⟩ := cons.inj hsplit
        obtain ⟨sql, hfirst⟩ := hearlier first (mem_cons_self ..)
        have hrest := ih.2 ⟨earlier, timeframe, later, rfl,
          (forall_mem_cons.1 hearlier).2, hfault⟩
        rw [hfirst, hrest]
        rfl

end Compiler

/-- Compiling the timeframes of a query gives what each gives by itself, from the same memo and
under the same scope.  The timeframes are pairwise distinct; there are statements exactly if each is
there alone, in the order of the timeframes; and else the fault is that of the first timeframe that
has one. -/
theorem all_answers_as_each_alone (c : Compiler) (d : Query.Draft) (id : Nat) (scope : Scope)
    (nameFor : String → String) (m : Memo) :
    (d.build id).windows.Nodup ∧
    ((∃ statements, (c.all scope (d.build id) nameFor m).1 = .ok statements) ↔
      ∀ timeframe ∈ (d.build id).windows, ∃ sql,
        (c.windowed scope (d.build id) { name := nameFor timeframe, timeframe } m).1 = .ok sql) ∧
    (∀ statements, (c.all scope (d.build id) nameFor m).1 = .ok statements ↔
      statements.map Prod.fst = (d.build id).windows ∧
        ∀ s ∈ statements, (c.windowed scope (d.build id)
          { name := nameFor s.1, timeframe := s.1 } m).1 = .ok s.2) ∧
    ∀ e, (c.all scope (d.build id) nameFor m).1 = .error e ↔
      ∃ earlier timeframe later, (d.build id).windows = earlier ++ timeframe :: later ∧
        (∀ t ∈ earlier, ∃ sql,
          (c.windowed scope (d.build id) { name := nameFor t, timeframe := t } m).1 = .ok sql) ∧
        (c.windowed scope (d.build id) { name := nameFor timeframe, timeframe } m).1 =
          .error e := by
  have hok := c.allOf_eq_ok_iff scope (d.build id) nameFor m (d.build id).windows
  have herror := c.allOf_eq_error_iff scope (d.build id) nameFor m (d.build id).windows
  refine ⟨d.nodup_windows id, ⟨?_, ?_⟩, hok, herror⟩
  · rintro ⟨statements, h⟩ timeframe htimeframe
    obtain ⟨hnames, halone⟩ := (hok statements).1 h
    rw [← hnames] at htimeframe
    obtain ⟨s, hs, rfl⟩ := mem_map.1 htimeframe
    exact ⟨s.2, halone s hs⟩
  · intro halone
    cases hall : (c.all scope (d.build id) nameFor m).1 with
    | ok statements => exact ⟨statements, rfl⟩
    | error e =>
      obtain ⟨earlier, timeframe, later, hsplit, -, hfault⟩ := (herror e).1 hall
      have hmem : timeframe ∈ (d.build id).windows := by
        rw [hsplit]
        exact mem_append_right _ (mem_cons_self ..)
      obtain ⟨sql, hsql⟩ := halone timeframe hmem
      rw [Compiler.answerAlone, Compiler.timeframeTarget, hsql] at hfault
      cases hfault

/-- Rates by the minute and by five minutes, the minute given twice. -/
def ratesByMinutes : Query.Draft where
  sources := [{ typeName := "Rate" }]
  windows := ["1m", " 5m ", "1m"]

/-- The texts of two timeframes, each by itself and both at once. -/
theorem all_answers_ratesByMinutes :
    (({} : Compiler).all ⟨0⟩ (ratesByMinutes.build 0) (fun t => "rates_" ++ t) {}).1 =
      .ok [("1m", "CREATE TABLE IF NOT EXISTS rates_1m WITH (KAFKA_TOPIC='rates_1m', " ++
          "VALUE_FORMAT='AVRO', PARTITIONS=1, REPLICAS=1) AS\nSELECT *\n" ++
          "FROM Rate WINDOW TUMBLING (SIZE 1 MINUTES)\nEMIT CHANGES;"),
        ("5m", "CREATE TABLE IF NOT EXISTS rates_5m WITH (KAFKA_TOPIC='rates_5m', " ++
          "VALUE_FORMAT='AVRO', PARTITIONS=1, REPLICAS=1) AS\nSELECT *\n" ++
          "FROM Rate WINDOW TUMBLING (SIZE 5 MINUTES)\nEMIT CHANGES;")] := by
  obtain ⟨-, -, hok, -⟩ := all_answers_as_each_alone {} ratesByMinutes 0 ⟨0⟩
    (fun t => "rates_" ++ t) {}
  refine (hok _).2 ⟨by decide, forall_mem_cons.2 ⟨by decide +kernel,
    forall_mem_singleton.2 (by decide +kernel)⟩⟩

end StreamQuery
