import Mathlib.Tactic.Common
import StreamQuery.Statement.Run

/-!
# The memo as two cells

A compilation hands a memo on: the outline of the projection and the plan for reading a hub.  The
plan is derived from the outline, so it says nothing that the outline does not say; a memo whose
plan is the derived one is *coherent*.  On coherent memos a compilation is determined by the outline
alone, and what it adds to the plan cell is determined by the outline too.

Two notions carry the proofs.  A compilation is `Steady` on a class of outlines if it keeps every
outline of the class, answers by the outline, and only fills the plan; this is closed under the ways
in which compilations are put together.  A compilation `Settles` the memo if it begins by filling
the outline cell and is steady afterwards.  Every step settles the memo (`Compiler.run_settles`),
and from that alone follow: filled cells never change, the plan stays coherent, and a step that is
run again answers the same and changes nothing.
-/

namespace StreamQuery

namespace Memo

/-! ## Coherent memos -/

/-- A plan is that of the outline and of the hub columns in the side values. -/
def Coherent (q : Query) (m : Memo) : Prop :=
  ∀ plan, m.hubPlan = some plan → ∃ outline columns, m.outline = some outline ∧
    outline.hubInput = true ∧ q.extras.hubColumns = .ok columns ∧
      plan = HubPlan.ofOutline outline columns

/-- The cells that are filled in `m` hold the same in `m'`. -/
structure Extends (m m' : Memo) : Prop where
  outline : ∀ o, m.outline = some o → m'.outline = some o
  hubPlan : ∀ p, m.hubPlan = some p → m'.hubPlan = some p

lemma Extends.refl (m : Memo) : m.Extends m :=
  ⟨fun _ h => h, fun _ h => h⟩

/-- Filled cells stay through two steps. -/
lemma Extends.trans {m m' m'' : Memo} (h : m.Extends m') (h' : m'.Extends m'') : m.Extends m'' :=
  ⟨fun o ho => h'.outline o (h.outline o ho), fun p hp => h'.hubPlan p (h.hubPlan p hp)⟩

@[simp] lemma start_outline (o : Option Outline) : (start o).outline = o := rfl

@[simp] lemma start_hubPlan (o : Option Outline) : (start o).hubPlan = none := rfl

/-- A memo without plan is coherent. -/
lemma coherent_start (q : Query) (o : Option Outline) : (start o).Coherent q := by
  intro plan h
  simp at h

/-- Either of two coherent plans is coherent. -/
lemma Coherent.or {q : Query} {o : Option Outline} {p p' : Option HubPlan}
    (h : Coherent q ⟨o, p⟩) (h' : Coherent q ⟨o, p'⟩) : Coherent q ⟨o, p.or p'⟩ := by
  intro plan hplan
  cases p with
  | none => exact h' plan (by simpa using hplan)
  | some known => exact h plan (by simpa using hplan)

/-- Filling the outline cell keeps a memo coherent, if a filled cell stays. -/
lemma Coherent.fill {q : Query} {m : Memo} (h : m.Coherent q) {o : Option Outline}
    (ho : ∀ known, m.outline = some known → o = some known) :
    Coherent q { m with outline := o } := by
  intro plan hplan
  obtain ⟨outline, columns, hout, hhub, hcols, rfl⟩ := h plan hplan
  exact ⟨outline, columns, ho outline hout, hhub, hcols, rfl⟩

end Memo

/-- One compilation after another on the memo left, unless the first fails. -/
def Compilation.andThen {α β γ : Type} (f : Memo → Compilation α) (g : Memo → Compilation β)
    (join : α → β → γ) (m : Memo) : Compilation γ :=
  match (f m).1 with
  | .error e => (.error e, (f m).2)
  | .ok a => ((g (f m).2).1.map (join a), (g (f m).2).2)

/-! ## Steady compilations -/

/-- On memos whose outline is in the class `D`, the compilation keeps the outline, and the outline
determines its answer and what it adds to the plan. -/
structure Steady (q : Query) (D : Option Outline → Prop) {α : Type} (f : Memo → Compilation α) :
    Prop where
  /-- The answer is that on a memo of the same outline without plan. -/
  answer : ∀ m, D m.outline → m.Coherent q → (f m).1 = (f (Memo.start m.outline)).1
  /-- The memo afterwards has the same outline, and the plan that was known, or else the plan that
  a memo without plan would have got. -/
  effect : ∀ m, D m.outline → m.Coherent q →
    (f m).2 = ⟨m.outline, m.hubPlan.or (f (Memo.start m.outline)).2.hubPlan⟩
  coherent : ∀ o, D o → (f (Memo.start o)).2.Coherent q

namespace Steady

variable {q : Query} {D : Option Outline → Prop} {α β : Type}

/-- A steady compilation is steady on fewer outlines. -/
lemma mono {D' : Option Outline → Prop} {f : Memo → Compilation α} (h : Steady q D f)
    (hD : ∀ o, D' o → D o) : Steady q D' f where
  answer m hm := h.answer m (hD _ hm)
  effect m hm := h.effect m (hD _ hm)
  coherent o ho := h.coherent o (hD _ ho)

/-- A fixed answer is steady. -/
lemma const (r : Except Fault α) : Steady q D fun m => (r, m) where
  answer _ _ _ := rfl
  effect m _ _ := by simp
  coherent o _ := Memo.coherent_start q o

/-- What follows a compilation without looking at the memo does not matter. -/
lemma map {f : Memo → Compilation α} (h : Steady q D f) (g : Except Fault α → Except Fault β) :
    Steady q D fun m =>
      match f m with
      | (a, m') => (g a, m') where
  answer m hD hm := congrArg g (h.answer m hD hm)
  effect := h.effect
  coherent := h.coherent

/-- A steady compilation may go on with its answer. -/
lemma bind {f : Memo → Compilation α} (h : Steady q D f) (k : α → Except Fault β) :
    Steady q D fun m => ((f m).1 >>= k, (f m).2) :=
  h.map (· >>= k)

/-- A steady compilation keeps the outline. -/
lemma outline_snd {f : Memo → Compilation α} (h : Steady q D f) {m : Memo} (hD : D m.outline)
    (hm : m.Coherent q) : (f m).2.outline = m.outline := by
  rw [h.effect m hD hm]

/-- A steady compilation keeps the memo coherent. -/
lemma coherent_snd {f : Memo → Compilation α} (h : Steady q D f) {m : Memo} (hD : D m.outline)
    (hm : m.Coherent q) : (f m).2.Coherent q := by
  have hstart : (f (Memo.start m.outline)).2.Coherent q := h.coherent m.outline hD
  have houtline : (f (Memo.start m.outline)).2.outline = m.outline :=
    h.outline_snd (m := Memo.start m.outline) hD (Memo.coherent_start q m.outline)
  rw [h.effect m hD hm]
  refine Memo.Coherent.or hm ?_
  intro plan hplan
  rw [← houtline]
  exact hstart plan hplan

/-- Steady compilations can be run one after the other. -/
lemma andThen {f : Memo → Compilation α} {g : Memo → Compilation β} {γ : Type} (hf : Steady q D f)
    (hg : Steady q D g) (join : α → β → γ) : Steady q D (Compilation.andThen f g join) := by
  -- the second compilation starts from a coherent memo of the same outline
  have hanswer : ∀ m, D m.outline → m.Coherent q →
      (g (f m).2).1 = (g (Memo.start m.outline)).1 := by
    intro m hD hm
    have hout : (f m).2.outline = m.outline := hf.outline_snd hD hm
    rw [hg.answer _ (hout.symm ▸ hD) (hf.coherent_snd hD hm), hout]
  have heffect : ∀ m, D m.outline → m.Coherent q →
      (g (f m).2).2 = ⟨m.outline, (m.hubPlan.or (f (Memo.start m.outline)).2.hubPlan).or
        (g (Memo.start m.outline)).2.hubPlan⟩ := by
    intro m hD hm
    have hout : (f m).2.outline = m.outline := hf.outline_snd hD hm
    rw [hg.effect _ (hout.symm ▸ hD) (hf.coherent_snd hD hm), hout, hf.effect m hD hm]
  have hstart : ∀ o, (Memo.start o).Coherent q := Memo.coherent_start q
  refine ⟨fun m hD hm => ?_, fun m hD hm => ?_, fun o hD => ?_⟩
  · simp only [Compilation.andThen, hf.answer m hD hm]
    cases (f (Memo.start m.outline)).1 with
    | error e => rfl
    | ok a =>
      simp only [hanswer m hD hm, hanswer (Memo.start m.outline) hD (hstart _), Memo.start_outline]
  · simp only [Compilation.andThen, hf.answer m hD hm]
    cases (f (Memo.start m.outline)).1 with
    | error e => exact hf.effect m hD hm
    | ok a =>
      simp only [heffect m hD hm, heffect (Memo.start m.outline) hD (hstart _),
        Memo.start_outline, Memo.start_hubPlan, Option.none_or, Option.or_assoc]
  · simp only [Compilation.andThen]
    cases (f (Memo.start o)).1 with
    | error e => exact hf.coherent o hD
    | ok a =>
      have hout : (f (Memo.start o)).2.outline = o :=
        hf.outline_snd (m := Memo.start o) hD (hstart o)
      exact hg.coherent_snd (hout.symm ▸ hD) (hf.coherent o hD)

end Steady

/-! ## Compilations that settle the memo -/

/-- The compilation begins by filling the outline cell, and is steady once this has been done. -/
structure Settles (q : Query) (fill : Option Outline → Option Outline) {α : Type}
    (f : Memo → Compilation α) : Prop where
  fill_some : ∀ o, fill (some o) = some o
  filled : ∀ m, f m = f { m with outline := fill m.outline }
  steady : Steady q (fun o => fill o = o) f

namespace Settles

variable {q : Query} {fill : Option Outline → Option Outline} {α β : Type}
  {f : Memo → Compilation α}

/-- What is steady on all outlines settles the memo. -/
lemma of_steady (h : Steady q (fun _ => True) f) : Settles q id f where
  fill_some _ := rfl
  filled _ := rfl
  steady := h.mono fun _ _ => trivial

/-- What settles the memo does so with another answer. -/
lemma map (h : Settles q fill f) (g : Except Fault α → Except Fault β) :
    Settles q fill fun m =>
      match f m with
      | (a, m') => (g a, m') where
  fill_some := h.fill_some
  filled m := by rw [h.filled m]
  steady := h.steady.map g

/-- The outline cell is filled once. -/
lemma fill_fill (h : Settles q fill f) (o : Option Outline) : fill (fill o) = fill o := by
  cases ho : fill o with
  | some outline => exact h.fill_some outline
  | none =>
    cases o with
    | some outline => simp [h.fill_some] at ho
    | none => exact ho

variable {m : Memo}

/-- Filling the outline cell keeps the memo coherent. -/
lemma coherent_fill (h : Settles q fill f) (hm : m.Coherent q) :
    Memo.Coherent q { m with outline := fill m.outline } :=
  hm.fill fun known hknown => by rw [hknown, h.fill_some]

/-- The answer depends on the outline only. -/
lemma answer (h : Settles q fill f) (hm : m.Coherent q) :
    (f m).1 = (f (Memo.start m.outline)).1 := by
  rw [h.filled m, h.filled (Memo.start m.outline)]
  exact h.steady.answer _ (h.fill_fill _) (h.coherent_fill hm)

/-- The answer is the same once the outline cell is filled. -/
lemma answer_fill (h : Settles q fill f) (o : Option Outline) :
    (f (Memo.start (fill o))).1 = (f (Memo.start o)).1 := by
  rw [h.filled (Memo.start o)]
  rfl

/-- The outline cell is filled, and a missing plan is added. -/
lemma effect (h : Settles q fill f) (hm : m.Coherent q) :
    (f m).2 = ⟨fill m.outline, m.hubPlan.or (f (Memo.start (fill m.outline))).2.hubPlan⟩ := by
  rw [h.filled m]
  exact h.steady.effect _ (h.fill_fill _) (h.coherent_fill hm)

lemma outline (h : Settles q fill f) (hm : m.Coherent q) : (f m).2.outline = fill m.outline := by
  rw [h.effect hm]

/-- What settles the memo keeps it coherent. -/
lemma coherent (h : Settles q fill f) (hm : m.Coherent q) : (f m).2.Coherent q := by
  rw [h.filled m]
  exact h.steady.coherent_snd (h.fill_fill _) (h.coherent_fill hm)

/-- What settles the memo keeps filled cells. -/
lemma extends_snd (h : Settles q fill f) (hm : m.Coherent q) : m.Extends (f m).2 := by
  rw [h.effect hm]
  refine ⟨fun o ho => ?_, fun p hp => ?_⟩
  · simp only [ho, h.fill_some]
  · simp only [hp, Option.some_or]

/-- A second run answers the same and changes nothing. -/
lemma replay (h : Settles q fill f) (hm : m.Coherent q) : f (f m).2 = f m := by
  have hcoh : (f m).2.Coherent q := h.coherent hm
  have hout : (f m).2.outline = fill m.outline := h.outline hm
  have hfst : (f (f m).2).1 = (f m).1 := by
    rw [h.answer hcoh, hout, h.answer_fill, h.answer hm]
  have hsnd : (f (f m).2).2 = (f m).2 := by
    rw [h.effect hcoh, hout, h.fill_fill]
    nth_rewrite 2 [h.effect hm]
    rw [h.effect hm]
    cases m.hubPlan <;> cases (f (Memo.start (fill m.outline))).2.hubPlan <;> rfl
  exact Prod.ext hfst hsnd

end Settles

/-! ## The steps -/

/-- The outline of the projection of a query, read as a hub projection. -/
def Query.hubOutline? (q : Query) : Option Outline :=
  q.projection.map fun projection => Outline.ofProjection projection.forHub true

namespace Compiler

variable (c : Compiler) (scope : Scope) (q : Query)

/-- Choosing the columns is steady. -/
lemma steady_selection (options : RenderOptions) :
    Steady q (fun _ => True) (selection q options) := by
  have key : ∀ m : Memo, m.Coherent q →
      (selection q options m).1 = (selection q options (Memo.start m.outline)).1 ∧
        (selection q options m).2 = ⟨m.outline, m.hubPlan.or
          (selection q options (Memo.start m.outline)).2.hubPlan⟩ ∧
        (selection q options (Memo.start m.outline)).2.Coherent q := by
    intro m hm
    have hstart : (Memo.start m.outline).Coherent q := Memo.coherent_start q m.outline
    unfold selection
    cases options.resultType with
    | some result => exact ⟨rfl, by simp, hstart⟩
    | none =>
      cases q.extras.callerPlan with
      | error e => exact ⟨rfl, by simp, hstart⟩
      | ok caller =>
        have hhub : (Memo.start m.outline).hubOutline? = m.hubOutline? := rfl
        simp only [hhub]
        cases hout : m.hubOutline? with
        | none =>
          cases (q.extras.get? Extras.rulesKey).isSome <;> exact ⟨rfl, by simp, hstart⟩
        | some outline =>
          cases hcols : q.extras.hubColumns with
          | error e => exact ⟨rfl, by simp, hstart⟩
          | ok available =>
            obtain ⟨houtline, hinput⟩ : m.outline = some outline ∧ outline.hubInput := by
              simpa [Memo.hubOutline?, Option.filter_eq_some_iff] using hout
            have hfresh : Memo.Coherent q
                ⟨m.outline, some (HubPlan.ofOutline outline available)⟩ := by
              rintro plan ⟨⟩
              exact ⟨outline, available, houtline, hinput, hcols, rfl⟩
            cases hplan : m.hubPlan with
            | none =>
              refine ⟨?_, ?_, hfresh⟩ <;> simp [Memo.withPlan, hplan]
            | some known =>
              -- the plan that is known is the one that would be derived
              obtain ⟨outline', columns, hout', -, hcols', hknown⟩ := hm known hplan
              obtain rfl : outline = outline' := Option.some.inj (houtline.symm.trans hout')
              obtain rfl : available = columns := Except.ok.inj (hcols.symm.trans hcols')
              refine ⟨?_, ?_, hfresh⟩
              · simp [Memo.withPlan, hplan, hknown]
              · simp only [Memo.withPlan, hplan, Memo.start_hubPlan, Option.some_or]
                rw [← hplan]
  refine ⟨fun m _ hm => (key m hm).1, fun m _ hm => (key m hm).2.1, fun o _ => ?_⟩
  exact (key (Memo.start o) (Memo.coherent_start q o)).2.2

variable (p : CreatePlan) (input : Option String)

lemma steady_select (groupBy : Option String) :
    Steady q (fun _ => True) (c.select q p groupBy) := by
  unfold select
  cases p.projection with
  | none => exact Steady.const _
  | some projection =>
    dsimp only
    exact (steady_selection q p.target.options).bind _

/-- Writing the clauses is steady. -/
lemma steady_rawClauses : Steady q (fun _ => True) (c.rawClauses q p) := by
  unfold rawClauses
  cases c.source q p.target.naming q.primaryAlias with
  | error e => exact Steady.const _
  | ok source =>
    cases c.groupBy q q.primaryAlias with
    | error e => exact Steady.const _
    | ok groupBy =>
      dsimp only
      exact (c.steady_select q p groupBy).bind _

lemma steady_assemble : Steady q (fun _ => True) (c.assemble q p) :=
  (c.steady_rawClauses q p).map _

/-- Creating a statement is steady. -/
lemma steady_create (target : CreateTarget) :
    Steady q (fun _ => True) (c.create scope q target) := by
  unfold create
  cases checkTarget scope q target.name with
  | error e => exact Steady.const _
  | ok u => exact (c.steady_assemble q (createPlan q target)).map _

/-- So is creating one over a hopping window. -/
lemma steady_hopping (target : HoppingTarget) :
    Steady q (fun _ => True) (c.hopping scope q target) := by
  unfold hopping
  cases target.window scope q with
  | error e => exact Steady.const _
  | ok window => exact (c.steady_assemble q (target.plan q)).map _

/-! ### Steps that fill the outline -/

/-- The outline cell after a windowed statement has looked at its input. -/
def fillOutline (input : Option String) (o : Option Outline) : Option Outline :=
  o.or (if (inputName? q input).any c.settings.isHubSource then q.hubOutline? else none)

/-- A filled outline cell stays. -/
@[simp] lemma fillOutline_some (o : Outline) : c.fillOutline q input (some o) = some o := rfl

/-- The projection for a hub depends on the outline, and fills it. -/
lemma hubProjection_eq (m : Memo) :
    c.hubProjection q input m =
      ((c.hubProjection q input (Memo.start m.outline)).1,
        { m with outline := c.fillOutline q input m.outline }) := by
  unfold hubProjection fillOutline Query.hubOutline?
  cases q.projection with
  | none => simp
  | some projection =>
    cases inputName? q input with
    | none => simp
    | some name =>
      cases hhub : c.settings.isHubSource name with
      | false => simp [hhub]
      | true =>
        cases hout : m.outline with
        | none => simp [hhub, hout, Memo.withOutline]
        | some o =>
          cases hinput : o.hubInput
          · simp only [hhub, hinput, Memo.start_outline, Option.all_some, Bool.and_false,
              Bool.false_eq_true, if_false, Option.some_or]
            rw [← hout]
          · simp only [hhub, hout, hinput, Memo.start_outline, Option.all_some, Bool.and_true,
              if_true, Memo.withOutline, Option.some_or]
            rw [← hout]

/-- Looking for the projection for a hub again gives the same projection. -/
lemma hubProjection_fill (o : Option Outline) :
    (c.hubProjection q input (Memo.start (c.fillOutline q input o))).1 =
      (c.hubProjection q input (Memo.start o)).1 := by
  cases o with
  | some o => rfl
  | none =>
    unfold hubProjection fillOutline Query.hubOutline?
    cases q.projection with
    | none => rfl
    | some projection =>
      cases inputName? q input with
      | none => rfl
      | some name =>
        cases hhub : c.settings.isHubSource name <;> simp [hhub, Outline.ofProjection]

/-- The outline cell after a windowed statement; a refused target leaves it. -/
def windowedOutline (target : WindowedTarget) (o : Option Outline) : Option Outline :=
  match target.check scope q with
  | .error _ => o
  | .ok _ => c.fillOutline q target.overrides.input o

/-- What a windowed statement does once its projection is known. -/
def windowedBody (target : WindowedTarget) (adapted : Option Lambda) (m : Memo) :
    Compilation String :=
  match c.assemble q (target.plan q (adapted.or q.projection)) m with
  | (statement, m') => (statement.map fun s => target.edit q (adapted.or q.projection) s.sql, m')

/-- A windowed statement that passes its checks: the projection is chosen by the outline, the
outline cell is filled, and the rest is assembled. -/
lemma windowed_eq (target : WindowedTarget) (hcheck : target.check scope q = .ok ()) (m : Memo) :
    c.windowed scope q target m =
      c.windowedBody q target (c.hubProjection q target.overrides.input (Memo.start m.outline)).1
        { m with outline := c.fillOutline q target.overrides.input m.outline } := by
  unfold windowed
  rw [hcheck, c.hubProjection_eq q _ m]
  rfl

/-- A windowed statement settles the memo. -/
lemma settles_windowed (target : WindowedTarget) :
    Settles q (c.windowedOutline scope q target) (c.windowed scope q target) := by
  cases hcheck : target.check scope q with
  | error e =>
    have hfill : c.windowedOutline scope q target = id := by
      funext o
      simp [windowedOutline, hcheck]
    have hrun : c.windowed scope q target = fun m => (.error e, m) := by
      funext m
      simp [windowed, hcheck]
    rw [hfill, hrun]
    exact Settles.of_steady (Steady.const _)
  | ok u =>
    have hfill : c.windowedOutline scope q target = c.fillOutline q target.overrides.input := by
      funext o
      simp [windowedOutline, hcheck]
    have hbody : ∀ adapted, Steady q (fun _ => True) (c.windowedBody q target adapted) :=
      fun adapted => (c.steady_assemble q _).map _
    have hrun := c.windowed_eq scope q target hcheck
    -- on a memo whose outline cell is filled, only the body is left
    have hfixed : ∀ m : Memo, c.fillOutline q target.overrides.input m.outline = m.outline →
        c.windowed scope q target m = c.windowedBody q target
          (c.hubProjection q target.overrides.input (Memo.start m.outline)).1 m := by
      intro m hm
      rw [hrun, hm]
    rw [hfill]
    refine ⟨c.fillOutline_some q _, fun m => ?_, ⟨fun m hm hcoh => ?_, fun m hm hcoh => ?_,
      fun o ho => ?_⟩⟩
    · rw [hrun, hrun]
      simp only [hubProjection_fill]
      cases m.outline with
      | some o => rfl
      | none => cases h : c.fillOutline q target.overrides.input none <;> simp [h]
    · rw [hfixed m hm, hfixed (Memo.start m.outline) hm]
      exact (hbody _).answer m trivial hcoh
    · rw [hfixed m hm, hfixed (Memo.start m.outline) hm]
      exact (hbody _).effect m trivial hcoh
    · rw [hfixed (Memo.start o) ho]
      exact (hbody _).coherent o trivial

/-- The windowed target of a timeframe among several. -/
def timeframeTarget (nameFor : String → String) (timeframe : String) : WindowedTarget :=
  { name := nameFor timeframe, timeframe }

/-- A list of timeframes, one windowed statement after the other. -/
lemma allOf_cons (nameFor : String → String) (timeframe : String) (rest : List String) :
    c.allOf scope q nameFor (timeframe :: rest) =
      Compilation.andThen (c.windowed scope q (timeframeTarget nameFor timeframe))
        (c.allOf scope q nameFor rest) fun sql others => (timeframe, sql) :: others := by
  funext m
  unfold Compilation.andThen timeframeTarget
  rw [allOf]
  rcases c.windowed scope q { name := nameFor timeframe, timeframe } m with ⟨_ | sql, m'⟩ <;> rfl

/-- All timeframes are steady where the outline cell is filled. -/
lemma steady_allOf (nameFor : String → String) (timeframes : List String) :
    Steady q (fun o => c.fillOutline q none o = o) (c.allOf scope q nameFor timeframes) := by
  induction timeframes with
  | nil => exact Steady.const _
  | cons timeframe rest ih =>
    have hfirst : Steady q (fun o => c.fillOutline q none o = o)
        (c.windowed scope q (timeframeTarget nameFor timeframe)) := by
      refine (c.settles_windowed scope q (timeframeTarget nameFor timeframe)).steady.mono ?_
      intro o ho
      unfold windowedOutline
      cases (timeframeTarget nameFor timeframe).check scope q with
      | error e => rfl
      | ok u => exact ho
    rw [allOf_cons]
    exact hfirst.andThen ih _

/-- The outline cell after a step. -/
def outlineAfter : Step → Option Outline → Option Outline
  | .windowed target, o => c.windowedOutline scope q target o
  | .all nameFor, o =>
    match q.windows with
    | [] => o
    | timeframe :: _ => c.windowedOutline scope q (timeframeTarget nameFor timeframe) o
  | _, o => o

/-- The statements of all timeframes settle the memo. -/
lemma settles_all (nameFor : String → String) :
    Settles q (c.outlineAfter scope q (.all nameFor)) (c.all scope q nameFor) := by
  unfold all outlineAfter
  cases q.windows with
  | nil => exact Settles.of_steady (Steady.const _)
  | cons timeframe rest =>
    have hfirst := c.settles_windowed scope q (timeframeTarget nameFor timeframe)
    refine ⟨hfirst.fill_some, fun m => ?_, ?_⟩
    · simp only [allOf_cons, Compilation.andThen, ← hfirst.filled m]
    · cases hcheck : (timeframeTarget nameFor timeframe).check scope q with
      | ok u =>
        refine (c.steady_allOf scope q nameFor (timeframe :: rest)).mono fun o ho => ?_
        have hfill : c.fillOutline q none o = c.windowedOutline scope q
            (timeframeTarget nameFor timeframe) o := by
          unfold windowedOutline
          rw [hcheck]
          rfl
        exact hfill.trans ho
      | error e =>
        have hstop : c.allOf scope q nameFor (timeframe :: rest) = fun m => (.error e, m) := by
          funext m
          simp [allOf_cons, Compilation.andThen, windowed, hcheck]
        rw [hstop]
        exact Steady.const _

/-- Every step settles the memo. -/
theorem run_settles (step : Step) :
    Settles q (c.outlineAfter scope q step) (c.run scope q step) := by
  cases step with
  | create target => exact (Settles.of_steady (c.steady_create scope q target)).map _
  | windowed target => exact (c.settles_windowed scope q target).map _
  | hopping target => exact (Settles.of_steady (c.steady_hopping scope q target)).map _
  | all nameFor => exact (c.settles_all scope q nameFor).map _
  | insert target => exact Settles.of_steady (Steady.const _)

end Compiler

end StreamQuery
