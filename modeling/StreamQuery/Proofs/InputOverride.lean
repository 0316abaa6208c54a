import StreamQuery.Proofs.Retargeting
import StreamQuery.Proofs.WindowInStatement

/-!
# Overriding the input

A windowed statement can be asked to read another source than the query's own.  Replacing the emit
mode comes first and leaves the line of the source alone (`emitted_line`).  Then the source is
exchanged and the window is placed, under the conditions of `Retargeting`.
`Windowing.text_retargeted` puts these together.
-/

namespace StreamQuery

open List Text Placement

/-! ## The emit mode -/

namespace WindowOverrides

/-- The emit mode of a statement. -/
def emitMode : List Char :=
  ['E', 'M', 'I', 'T', ' ', 'C', 'H', 'A', 'N', 'G', 'E', 'S']

/-- The text behind the emit mode at the start of a text. -/
def afterEmit? (s : List Char) : Option (List Char) :=
  if emitMode.isPrefixOf s then some (s.drop emitMode.length) else none

/-- A text with the emit mode that is asked for. -/
def emitted (o : WindowOverrides) (s : List Char) : List Char :=
  (o.emit.bind nonBlank).elim s fun emit =>
    substitute (WindowStart.scanRule afterEmit? emit) s

lemma toList_replaceAll_emit (emit sql : String) : (replaceAll "EMIT CHANGES" emit sql).toList =
    substitute (WindowStart.scanRule afterEmit? emit) sql.toList := by
  have hmode : "EMIT CHANGES".toList = emitMode := rfl
  have hrule : literalRule emitMode emit.toList = WindowStart.scanRule afterEmit? emit := by
    funext before rest
    unfold literalRule WindowStart.scanRule afterEmit?
    cases hmatch : emitMode.isPrefixOf rest with
    | false => rfl
    | true =>
      have hlength := (List.isPrefixOf_iff_prefix.1 hmatch).length_le
      rw [if_pos rfl, if_pos rfl, Option.map_some, length_drop, Nat.sub_sub_self hlength]
  rw [replaceAll, String.toList_ofList, hmode, hrule]

lemma toList_text_of_none {o : WindowOverrides} (h : o.input.bind nonBlank = none)
    (sql : String) : (o.text sql).toList = o.emitted sql.toList := by
  unfold text emitted
  rw [h]
  cases o.emit.bind nonBlank with
  | none => rfl
  | some emit => exact toList_replaceAll_emit emit sql

/-- A statement with another source has it for the first source name. -/
lemma toList_text_of_some {o : WindowOverrides} {input : String}
    (h : o.input.bind nonBlank = some input) (sql : String) :
    (o.text sql).toList = retargetFrom input.toList [] (o.emitted sql.toList) := by
  unfold text emitted
  rw [h]
  dsimp only
  rw [retarget, String.toList_ofList]
  cases o.emit.bind nonBlank with
  | none => rfl
  | some emit => exact congrArg _ (toList_replaceAll_emit emit sql)

lemma afterEmit?_eq_none {s : List Char} (h : ∀ t, s ≠ emitMode ++ t) : afterEmit? s = none := by
  refine if_neg fun hmatch => ?_
  obtain ⟨t, ht⟩ := isPrefixOf_iff_prefix.1 hmatch
  exact h t ht.symm

lemma afterEmit?_cons {c : Char} (hc : c ≠ 'E') (rest : List Char) :
    afterEmit? (c :: rest) = none :=
  afterEmit?_eq_none fun _ ht => hc (cons.inj ht).1

lemma afterEmit?_line (y rest : List Char) :
    afterEmit? (y ++ '\n' :: rest) = (afterEmit? y).map (· ++ '\n' :: rest) := by
  unfold afterEmit?
  rw [Text.isPrefixOf_append_cons (by decide)]
  cases hmatch : emitMode.isPrefixOf y with
  | false => rfl
  | true =>
    have hlength := (List.isPrefixOf_iff_prefix.1 hmatch).length_le
    rw [if_pos rfl, if_pos rfl, drop_append_of_le_length hlength, Option.map_some]

/-- No emit mode begins in the name of a source. -/
lemma afterEmit?_name {t rest : List Char} (ht : t ≠ []) (hblank : ∀ c ∈ t, isBlank c = false)
    (hrest : startsWord rest = false) (hspace : ∀ y, rest ≠ ' ' :: 'C' :: y) :
    afterEmit? (t ++ rest) = none := by
  have hword : ∀ c y, isWord c → rest ≠ c :: y := by
    rintro c y hc rfl
    exact absurd hrest (by rw [startsWord, head?_cons, Option.any_some, hc]; decide)
  refine afterEmit?_eq_none fun y hy => ?_
  -- the first space of the emit mode stands behind four letters
  rcases t with _ | ⟨c₀, _ | ⟨c₁, _ | ⟨c₂, _ | ⟨c₃, _ | ⟨c₄, t⟩⟩⟩⟩⟩
  · exact ht rfl
  · exact hword 'M' _ rfl (cons.inj hy).2
  · exact hword 'I' _ rfl (cons.inj (cons.inj hy).2).2
  · exact hword 'T' _ rfl (cons.inj (cons.inj (cons.inj hy).2).2).2
  · exact hspace _ (cons.inj (cons.inj (cons.inj (cons.inj hy).2).2).2).2
  · have hfour := (cons.inj (cons.inj (cons.inj (cons.inj hy).2).2).2).2
    have hspace := hblank c₄ (by simp)
    rw [(cons.inj hfour).1] at hspace
    exact absurd hspace (by decide)

variable (o : WindowOverrides)

lemma emitted_pass {p rest : List Char}
    (h : ∀ z, z <:+ p → z ≠ [] → afterEmit? (z ++ rest) = none) :
    o.emitted (p ++ rest) = p ++ o.emitted rest := by
  unfold emitted
  cases o.emit.bind nonBlank with
  | none => rfl
  | some emit => exact WindowStart.substitute_pass h

lemma emitted_append {p : List Char} (hp : 'E' ∉ p) (rest : List Char) :
    o.emitted (p ++ rest) = p ++ o.emitted rest := by
  refine o.emitted_pass fun z hz hne => ?_
  obtain ⟨c, z, rfl⟩ := exists_cons_of_ne_nil hne
  refine afterEmit?_cons ?_ _
  rintro rfl
  exact hp (hz.subset (mem_cons_self ..))

/-- The emit mode is replaced before the source line and behind the source. -/
lemma emitted_line {name aliasText tail : List Char} (hname : IsPlainName name)
    (halias : IsAliasText aliasText) (htail : NextPart tail) (front : List Char) :
    o.emitted (front ++ fromLine ++ (name ++ (aliasText ++ tail))) =
      o.emitted front ++ fromLine ++ (name ++ (aliasText ++ o.emitted tail)) := by
  have hline : ∀ rest, o.emitted (front ++ '\n' :: rest) =
      o.emitted front ++ o.emitted ('\n' :: rest) := by
    intro rest
    unfold emitted
    cases o.emit.bind nonBlank with
    | none => rfl
    | some emit => exact WindowStart.substitute_append rfl fun y _ _ => afterEmit?_line y rest
  -- what follows the name is the alias, a join, another line or the end
  have hnext : startsWord (aliasText ++ tail) = false ∧
      ∀ y, aliasText ++ tail ≠ ' ' :: 'C' :: y := by
    rcases halias with rfl | rfl
    · refine ⟨htail.startsWord, fun y hy => ?_⟩
      rw [nil_append] at hy
      rcases htail with hhead | hhead | ⟨rest, hrest⟩
      · rw [hy] at hhead
        cases hhead
      · rw [hy] at hhead
        cases hhead
      · rw [hy] at hrest
        cases hrest
    · refine ⟨(rfl : isWord ' ' = false), fun y hy => ?_⟩
      cases hy
  have hpass : o.emitted (name ++ (aliasText ++ tail)) =
      name ++ o.emitted (aliasText ++ tail) := by
    refine o.emitted_pass fun z hz hne => afterEmit?_name hne (fun c hc => ?_) hnext.1 hnext.2
    exact (hname.2 c (hz.subset hc)).1
  have haliasText : 'E' ∉ aliasText := by
    rcases halias with rfl | rfl
    · decide
    · decide
  have hfrom : ∀ rest, o.emitted ('\n' :: ("FROM ".toList ++ rest)) =
      fromLine ++ o.emitted rest := o.emitted_append (p := fromLine) (by decide)
  rw [append_assoc]
  change o.emitted (front ++ '\n' :: ("FROM ".toList ++ _)) = _
  rw [hline, hfrom, hpass, o.emitted_append haliasText, append_assoc]

lemma emitted_tail {tail : List Char} (h : NextPart tail) :
    ∃ c rest, o.emitted tail = c :: rest ∧ isWord c = false ∧ c ≠ ',' := by
  have hfirst : ∀ c rest, c ≠ 'E' → o.emitted (c :: rest) = c :: o.emitted rest := by
    intro c rest hc
    exact o.emitted_append (p := [c]) (by rwa [mem_singleton, eq_comm]) rest
  cases tail with
  | nil => rcases h with hhead | hhead | ⟨rest, hrest⟩ <;> contradiction
  | cons c rest =>
    have hc : c = ';' ∨ c = '\n' ∨ c = ' ' := by
      rcases h with hhead | hhead | ⟨rest, hrest⟩
      · exact .inl (Option.some.inj hhead)
      · exact .inr (.inl (Option.some.inj hhead))
      · exact .inr (.inr (cons.inj hrest).1.symm)
    rcases hc with rfl | rfl | rfl
    · exact ⟨_, _, hfirst _ _ (by decide), rfl, by decide⟩
    · exact ⟨_, _, hfirst _ _ (by decide), rfl, by decide⟩
    · exact ⟨_, _, hfirst _ _ (by decide), rfl, by decide⟩

end WindowOverrides

/-! ## Finished texts -/

namespace Windowing

/-- The same edits with another input. -/
def withInput (w : Windowing) (input : Option String) : Windowing :=
  { w with overrides := { w.overrides with input } }

/-- Taking out the window starts leaves the line of the source alone: the front does not end with
AS. -/
def LeavesLine (w : Windowing) (front : List Char) : Prop :=
  ∀ asksForStart, w.asksForStart = some asksForStart →
    WindowStart.leavesFrom asksForStart front = true

/-- Taking out the window starts of a hopping statement leaves a name alone: the name holds none. -/
def LeavesName (w : Windowing) (name : List Char) : Prop :=
  w.asksForStart.isSome = true → ∀ z, z <:+ name → dropFolded? "WINDOWSTART".toList z = none

variable {w : Windowing} {front : List Char}

/-- Finishing leaves the name of the source where it is. -/
lemma finish_name {name : List Char} (h : w.LeavesName name) (hname : isName name)
    {c : Char} (hword : isWord c = false) (hc : c ≠ ',') (rest : List Char) :
    w.finish (name ++ c :: rest) = name ++ c :: w.finish rest := by
  have hcomma : ',' ∉ name := by
    intro hmem
    rw [isName, Bool.and_eq_true, all_eq_true] at hname
    exact absurd (hname.2 ',' hmem) (by decide +kernel)
  have hpass :=
    w.finish_passed (fun hasks => WindowStart.passed_name hcomma (h hasks) hword hc) rest
  rw [append_assoc, append_assoc] at hpass
  exact hpass

/-- With a window placed and finished, texts that differ in the name of their source do so still. -/
lemma finish_placed (hfront : NamesNoSource front) (hleaves : w.LeavesLine front) {c : Char}
    (hword : isWord c = false) (hc : c ≠ ',') (rest : List Char) :
    ∃ before after, ∀ name, isName name → w.LeavesName name →
      w.finish ((spotIn? (front ++ fromLine ++ (name ++ c :: rest))).elim
        (front ++ fromLine ++ (name ++ c :: rest)) fun spot =>
          spot.1 ++ ' ' :: w.window.sql.toList ++ spot.2) =
        before ++ fromLine ++ (name ++ after) := by
  obtain ⟨front', -, hfront'⟩ := finish_front hleaves
  obtain ⟨d, placed, hplaced, hd⟩ := placedBehind_head w.window.sql.toList c rest
  have hd : isWord d = false ∧ d ≠ ',' := by
    rcases hd with rfl | rfl
    · exact ⟨rfl, by decide⟩
    · exact ⟨hword, hc⟩
  refine ⟨front', d :: w.finish placed, fun name hname hkept => ?_⟩
  have hrest : startsWord (c :: rest) = false := hword
  rw [placed_line hfront hname hrest, hfront', hplaced, finish_name hkept hname hd.1 hd.2]

end Windowing

/-! ## Steps with another input -/

/-- A target with the given input. -/
def WindowedTarget.withInput (target : WindowedTarget) (input : Option String) : WindowedTarget :=
  { target with overrides := { target.overrides with input } }

/-- A target with the given input. -/
def HoppingTarget.withInput (target : HoppingTarget) (input : Option String) : HoppingTarget :=
  { target with overrides := { target.overrides with input } }

/-- A step with the given input; a step without a window has none. -/
def Step.withInput (input : Option String) : Step → Step
  | .windowed target => .windowed (target.withInput input)
  | .hopping target => .hopping (target.withInput input)
  | step => step

namespace Compiler

variable (c : Compiler) (scope : Scope) (q : Query)

/-- Neither the given input nor the primary source is a hub; only a windowed step asks for that. -/
def ReadsNoHub (input : String) : Step → Prop
  | .windowed _ => c.settings.isHubSource input = false ∧
      ∀ source ∈ q.sources.head?, c.settings.isHubSource source.name = false
  | _ => True

variable {c scope q} {memo : Memo} {step : Step} {input trimmed : String}

/-- A projection is not adapted to a source that is no hub. -/
lemma hubProjection_of_not_hub {input : Option String}
    (h : ∀ name ∈ inputName? q input, c.settings.isHubSource name = false) :
    c.hubProjection q input memo = (none, memo) := by
  unfold hubProjection
  cases q.projection with
  | none => rfl
  | some projection =>
    cases hname : inputName? q input with
    | none => rfl
    | some name =>
      dsimp only
      rw [h name hname, Bool.false_and]
      rfl

/-- Without a hub, a windowed step compiles the query's own projection. -/
lemma hubProjection_withInput (memo : Memo) {target : WindowedTarget}
    (hinput : nonBlank input = some trimmed) (hhub : c.ReadsNoHub q trimmed (.windowed target)) :
    c.hubProjection q (target.withInput (some input)).overrides.input memo = (none, memo) ∧
      c.hubProjection q (target.withInput none).overrides.input memo = (none, memo) := by
  have htrimmed : inputName? q (some input) = some trimmed := by
    unfold inputName?
    rw [Option.bind_some, hinput]
    rfl
  constructor
  · refine hubProjection_of_not_hub fun name hname => ?_
    obtain rfl : trimmed = name := Option.some.inj (htrimmed.symm.trans hname)
    exact hhub.1
  · refine hubProjection_of_not_hub fun name hname => ?_
    change name ∈ q.sources.head?.map Source.name at hname
    obtain ⟨source, hsource, rfl⟩ := Option.map_eq_some_iff.1 hname
    exact hhub.2 source hsource

/-- Without a hub, a windowed statement is the assembled one with its edits. -/
lemma windowed_of_not_hub (target : WindowedTarget)
    (h : c.hubProjection q target.overrides.input memo = (none, memo))
    (hcheck : target.check scope q = .ok ()) :
    c.windowed scope q target memo =
      ((c.assemble q (target.plan q q.projection) memo).1.map
          fun s => target.edit q q.projection s.sql,
        (c.assemble q (target.plan q q.projection) memo).2) := by
  unfold windowed
  rw [hcheck]
  dsimp only
  rw [h]
  rfl

/-- A step fails with another input as without, and leaves the same memo. -/
lemma run_withInput (hstep : step.hasWindow) (hinput : nonBlank input = some trimmed)
    (hhub : c.ReadsNoHub q trimmed step) :
    ((c.run scope q (step.withInput (some input)) memo).1.map fun _ => ()) =
        ((c.run scope q (step.withInput none) memo).1.map fun _ => ()) ∧
      (c.run scope q (step.withInput (some input)) memo).2 =
        (c.run scope q (step.withInput none) memo).2 := by
  -- edits do not fail
  have hmap : ∀ (x : Except Fault CreateStatement) (f g : CreateStatement → String),
      (((x.map f).map Output.one).map fun _ => ()) =
        ((x.map g).map Output.one).map fun _ => () := by
    intro x f g
    cases x with
    | error e => rfl
    | ok s => rfl
  cases step with
  | windowed target =>
    obtain ⟨hsome, hnone⟩ := hubProjection_withInput memo hinput hhub
    unfold Step.withInput run
    dsimp only
    cases hcheck : target.check scope q with
    | error e =>
      have hfault : ∀ o, c.windowed scope q (target.withInput o) memo = (.error e, memo) := by
        intro o
        have hsame : (target.withInput o).check scope q = .error e := hcheck
        unfold windowed
        rw [hsame]
      rw [hfault, hfault]
      exact ⟨rfl, rfl⟩
    | ok =>
      rw [windowed_of_not_hub _ hsome hcheck, windowed_of_not_hub _ hnone hcheck]
      exact ⟨hmap _ _ _, rfl⟩
  | hopping target =>
    unfold Step.withInput run hopping
    dsimp only
    cases hwindow : target.window scope q with
    | error e =>
      have hfault : ∀ o, (target.withInput o).window scope q = .error e := fun _ => hwindow
      rw [hfault, hfault]
      exact ⟨rfl, rfl⟩
    | ok window =>
      have hwindows : ∀ o, (target.withInput o).window scope q = .ok window := fun _ => hwindow
      rw [hwindows, hwindows]
      exact ⟨hmap _ _ _, rfl⟩
  | _ => cases hstep

/-- The projection that a windowed step compiles without a hub. -/
lemma windowedProjection_of_not_hub (target : WindowedTarget)
    (h : c.hubProjection q target.overrides.input memo = (none, memo)) :
    c.windowedProjection q target memo = (q.projection, memo) := by
  unfold windowedProjection
  rw [h]
  rfl

variable {target : HoppingTarget} {d : Composition}

/-- The statement of a hopping step does not depend on its input. -/
lemma statement_of_hopping {o : Option String}
    (h : c.Composes scope q ((Step.hopping target).withInput o) memo d) {raw : RawClauses}
    (hraw : (c.rawClauses q (target.plan q) memo).1 = .ok raw) :
    d.statement q = (target.plan q).statement q raw := by
  cases h with
  | hopping _ _ _ raw' _ hraw' =>
    obtain rfl : raw' = raw := Except.ok.inj (hraw'.symm.trans hraw)
    change (target.plan q).statement q raw' = _
    rfl

/-- A windowed statement does not depend on its input, if that is no hub. -/
lemma statement_of_windowed {target : WindowedTarget} {o : Option String}
    (h : c.Composes scope q ((Step.windowed target).withInput o) memo d)
    (hhub : c.hubProjection q (target.withInput o).overrides.input memo = (none, memo)) :
    ∃ raw, (c.rawClauses q (target.plan q q.projection) memo).1 = .ok raw ∧
      d.statement q = (target.plan q q.projection).statement q raw := by
  cases h with
  | windowed _ _ raw hraw =>
    rw [windowedProjection_of_not_hub _ hhub] at hraw
    refine ⟨raw, hraw, ?_⟩
    unfold Composition.statement
    dsimp only
    rw [windowedProjection_of_not_hub _ hhub]
    rfl

/-- The statement before its edits is the same with another input as without. -/
lemma statement_withInput (hstep : step.hasWindow) (hinput : nonBlank input = some trimmed)
    (hhub : c.ReadsNoHub q trimmed step) {d' : Composition}
    (h : c.Composes scope q (step.withInput (some input)) memo d)
    (h' : c.Composes scope q (step.withInput none) memo d') : d.statement q = d'.statement q := by
  cases step with
  | windowed target =>
    obtain ⟨hsome, hnone⟩ := hubProjection_withInput memo hinput hhub
    obtain ⟨raw, hraw, hd⟩ := statement_of_windowed h hsome
    obtain ⟨raw', hraw', hd'⟩ := statement_of_windowed h' hnone
    obtain rfl : raw = raw' := Except.ok.inj (hraw.symm.trans hraw')
    rw [hd, hd']
  | hopping target =>
    have hraw : ∃ raw, (c.rawClauses q (target.plan q) memo).1 = .ok raw := by
      cases h with
      | hopping _ _ _ raw _ hraw => exact ⟨raw, hraw⟩
    obtain ⟨raw, hraw⟩ := hraw
    rw [statement_of_hopping h hraw, statement_of_hopping h' hraw]
  | _ => cases hstep

/-- The edits are the same with another input as without, the input apart. -/
lemma windowing?_withInput (hstep : step.hasWindow) (hinput : nonBlank input = some trimmed)
    (hhub : c.ReadsNoHub q trimmed step) :
    c.windowing? q memo (step.withInput (some input)) =
      (c.windowing? q memo (step.withInput none)).map (·.withInput (some input)) := by
  cases step with
  | windowed target =>
    obtain ⟨hsome, hnone⟩ := hubProjection_withInput memo hinput hhub
    unfold Step.withInput windowing?
    dsimp only
    rw [windowedProjection_of_not_hub _ hsome, windowedProjection_of_not_hub _ hnone]
    rfl
  | hopping target =>
    unfold Step.withInput windowing?
    cases q.hopping with
    | none => rfl
    | some hop => rfl
  | _ => cases hstep

lemma overrides_of_windowing? {w : Windowing} (h : c.windowing? q memo (.hopping target) = some w) :
    w.overrides = target.overrides := by
  obtain ⟨hop, -, rfl⟩ := Option.map_eq_some_iff.1 h
  rfl

lemma input_of_windowing? {w : Windowing} (h : c.windowing? q memo (step.withInput none) = some w)
    (hstep : step.hasWindow) : w.overrides.input = none := by
  cases step with
  | windowed target =>
    cases h
    rfl
  | hopping target =>
    rw [overrides_of_windowing? h]
    rfl
  | _ => cases hstep

/-- A hopping statement is returned when it has its window and its clauses. -/
lemma run_hopping_withInput {window : Window} {raw : RawClauses}
    (hwindow : target.window scope q = .ok window)
    (hraw : (c.rawClauses q (target.plan q) memo).1 = .ok raw) (input : Option String) :
    (c.run scope q ((Step.hopping target).withInput input) memo).1 =
      .ok (.one ((target.withInput input).edit q window
        ((target.plan q).statement q raw).sql)) := by
  have hsame : (target.withInput input).window scope q = .ok window := hwindow
  have hassemble : (c.assemble q ((target.withInput input).plan q) memo).1 =
      .ok ((target.plan q).statement q raw) := by
    change (c.rawClauses q (target.plan q) memo).1.map ((target.plan q).statement q) = _
    rw [hraw]
    rfl
  unfold Step.withInput run hopping
  dsimp only
  rw [hsame]
  dsimp only
  rw [hassemble]
  rfl

end Compiler

/-! ## The source of a statement -/

namespace Windowing

variable (w : Windowing) (s : CreateStatement) (f : FromClause)

/-- The text up to the line of the source, with the emit mode that is asked for. -/
def front : List Char :=
  w.overrides.emitted s.upToSource.toList

/-- The text behind the source name, with the emit mode asked for. -/
def behind : List Char :=
  f.aliasText ++ w.overrides.emitted (s.behindSource f.join).toList

lemma behind_head : ∃ c rest, w.behind s f = c :: rest ∧ isWord c = false ∧ c ≠ ',' := by
  obtain ⟨c, rest, htail, hword, hc⟩ :=
    w.overrides.emitted_tail (s.nextPart_behindSource f.join)
  unfold behind
  rw [htail]
  rcases f.isAliasText with halias | halias
  · rw [halias]
    exact ⟨c, rest, rfl, hword, hc⟩
  · rw [halias]
    exact ⟨' ', 'o' :: c :: rest, rfl, rfl, by decide⟩

variable {w s f}

/-- The text of a statement with the emit mode that is asked for. -/
lemma emitted_sql (hsource : s.clauses.source = f.sql) (hname : IsPlainName f.left.toList) :
    w.overrides.emitted s.sql.toList =
      w.front s ++ fromLine ++ (f.left.toList ++ w.behind s f) := by
  have hline := w.overrides.emitted_line hname f.isAliasText (s.nextPart_behindSource f.join)
    s.upToSource.toList
  rw [s.toList_sql hsource, append_assoc, append_assoc f.left.toList, hline]
  rfl

variable {input trimmed : String} (hnone : w.overrides.input = none)
  (hinput : nonBlank input = some trimmed) (hsource : s.clauses.source = f.sql)
  (hname : IsPlainName f.left.toList)

include hnone hsource hname in
lemma plain_own : w.plain s.sql = w.front s ++ fromLine ++ (f.left.toList ++ w.behind s f) := by
  have hbind : w.overrides.input.bind nonBlank = none := by
    rw [hnone]
    rfl
  exact (WindowOverrides.toList_text_of_none hbind s.sql).trans (emitted_sql hsource hname)

include hinput hsource hname in
lemma plain_retargeted : (w.withInput (some input)).plain s.sql = retargetFrom trimmed.toList []
    (w.front s ++ fromLine ++ (f.left.toList ++ w.behind s f)) := by
  have hbind : (w.withInput (some input)).overrides.input.bind nonBlank = some trimmed := by
    rw [show (w.withInput (some input)).overrides.input = some input from rfl, Option.bind_some,
      hinput]
  rw [← emitted_sql hsource hname]
  exact WindowOverrides.toList_text_of_some hbind s.sql

include hnone hinput hsource hname in
/-- Where the source is exchanged, the finished texts differ in its name only. -/
lemma text_retargeted (hfront : NamesNoSource (w.front s)) (hleft : isName f.left.toList)
    (htrimmed : isName trimmed.toList) (hline : w.LeavesLine (w.front s))
    (hkept : w.LeavesName f.left.toList) (hkept' : w.LeavesName trimmed.toList) :
    ∃ before after, w.text s.sql = before ++ fromLine ++ (f.left.toList ++ after) ∧
      (w.withInput (some input)).text s.sql = before ++ fromLine ++ (trimmed.toList ++ after) := by
  obtain ⟨c, rest, hbehind, hword, hcomma⟩ := w.behind_head s f
  have hplain := plain_own hnone hsource hname
  have hplain' := plain_retargeted (w := w) hinput hsource hname
  have hapart : startsWord (c :: rest) = false := hword
  rw [hbehind] at hplain hplain'
  rw [retargetFrom_line hfront hleft hapart] at hplain'
  obtain ⟨before, after, hplaced⟩ := finish_placed hfront hline hword hcomma rest
  refine ⟨before, after, ?_, ?_⟩
  · rw [text, hplain]
    exact hplaced f.left.toList hleft hkept
  · rw [text, hplain']
    exact hplaced trimmed.toList htrimmed hkept'

end Windowing

/-- A step with a window fails with another input exactly as without, and leaves the same memo.
Otherwise both texts are made from one statement by the same edits, the input apart. Up to where the
window is placed, they differ in the name of the source only, exactly if no FROM before the line of
the source has a name behind it, as `EXTRACT(YEAR FROM ...)` has, and the source has a name by the
rules of the search. Then so do the finished texts, if the new name is one by these rules and, in a
hopping statement, taking out the window starts does not touch the source. -/
theorem retargeted_source_iff (c : Compiler) (scope : Scope) (q : Query) (step : Step) (memo : Memo)
    (input trimmed : String) (hstep : step.hasWindow = true)
    (hinput : nonBlank input = some trimmed) (hhub : c.ReadsNoHub q trimmed step) :
    ((c.run scope q (step.withInput (some input)) memo).1.map fun _ => ()) =
        ((c.run scope q (step.withInput none) memo).1.map fun _ => ()) ∧
      (c.run scope q (step.withInput (some input)) memo).2 =
        (c.run scope q (step.withInput none) memo).2 ∧
      ∀ sql sql', (c.run scope q (step.withInput (some input)) memo).1 = .ok (.one sql) →
        (c.run scope q (step.withInput none) memo).1 = .ok (.one sql') →
        ∃ d w, c.Composes scope q (step.withInput none) memo d ∧
          c.windowing? q memo (step.withInput none) = some w ∧
          sql'.toList = w.text (d.statement q).sql ∧
          sql.toList = (w.withInput (some input)).text (d.statement q).sql ∧
          ∀ f : FromClause, (d.statement q).clauses.source = f.sql → IsPlainName f.left.toList →
            w.plain (d.statement q).sql = w.front (d.statement q) ++ fromLine ++
              (f.left.toList ++ w.behind (d.statement q) f) ∧
            (NamesNoSource (w.front (d.statement q)) → isName f.left.toList = true →
              (w.withInput (some input)).plain (d.statement q).sql =
                w.front (d.statement q) ++ fromLine ++
                  (trimmed.toList ++ w.behind (d.statement q) f)) ∧
            (isName trimmed.toList = true → f.left ≠ trimmed →
              (w.withInput (some input)).plain (d.statement q).sql =
                w.front (d.statement q) ++ fromLine ++
                  (trimmed.toList ++ w.behind (d.statement q) f) →
              NamesNoSource (w.front (d.statement q)) ∧ isName f.left.toList = true) ∧
            (NamesNoSource (w.front (d.statement q)) → isName f.left.toList = true →
              isName trimmed.toList = true → w.LeavesLine (w.front (d.statement q)) →
              w.LeavesName f.left.toList → w.LeavesName trimmed.toList →
              ∃ before after,
                sql'.toList = before ++ fromLine ++ (f.left.toList ++ after) ∧
                sql.toList = before ++ fromLine ++ (trimmed.toList ++ after)) := by
  obtain ⟨hfault, hmemo⟩ := Compiler.run_withInput hstep hinput hhub
  refine ⟨hfault, hmemo, fun sql sql' hrun hrun' => ?_⟩
  have hsteps : ∀ o, (step.withInput o).hasWindow := by
    intro o
    cases step <;> first | rfl | cases hstep
  obtain ⟨e, v, he, hv, hsql⟩ :=
    c.text_of_run scope q (hsteps (some input)) hrun (mem_singleton_self sql)
  obtain ⟨d, w, hd, hw, hsql'⟩ :=
    c.text_of_run scope q (hsteps none) hrun' (mem_singleton_self sql')
  rw [Compiler.windowing?_withInput hstep hinput hhub, hw, Option.map_some] at hv
  obtain rfl := Option.some.inj hv
  have hsame : e.statement q = d.statement q :=
    Compiler.statement_withInput hstep hinput hhub he hd
  rw [show e.plan.statement q e.raw = d.statement q from hsame] at hsql
  change sql'.toList = w.text (d.statement q).sql at hsql'
  refine ⟨d, w, hd, hw, hsql', hsql, fun f hsource hname => ?_⟩
  have hnone := Compiler.input_of_windowing? hw hstep
  have hplain := Windowing.plain_retargeted (w := w) hinput hsource hname
  have hapart : startsWord (w.behind (d.statement q) f) = false := by
    obtain ⟨b, rest, hbehind, hword, -⟩ := w.behind_head (d.statement q) f
    rw [hbehind]
    exact hword
  refine ⟨Windowing.plain_own hnone hsource hname, fun hfront hleft => ?_,
    fun htrimmed hne heq => ?_, fun hfront hleft htrimmed hline hkept hkept' => ?_⟩
  · rw [hplain]
    exact retargetFrom_line hfront hleft hapart
  · rw [hplain] at heq
    have hlist : f.left.toList ≠ trimmed.toList := fun h => hne (String.toList_injective h)
    exact (retargetFrom_line_iff hname htrimmed hlist hapart).1 heq
  · rw [hsql, hsql']
    exact Windowing.text_retargeted hnone hinput hsource hname hfront hleft htrimmed hline hkept
      hkept'

/-- The year of the last row of each group, over a hopping window. -/
def yearlyRows : Query :=
  Query.Draft.build
    { sources := [{ typeName := "T" }]
      groupBy := some ⟨[⟨"x", .unknown⟩], .member (.param ⟨"x", .unknown⟩) "A" .unknown false⟩
      projection := some ⟨[⟨"g", .grouping .string (.record "T")⟩], .record none
        [("Y", .call ⟨"Year", .onType, .unknown, none⟩ none
          [.call ⟨"LatestByOffset", .extending, .unknown, none⟩ none
            [.param ⟨"g", .grouping .string (.record "T")⟩,
              .lambda [⟨"x", .unknown⟩]
                (.member (.param ⟨"x", .unknown⟩) "Ts" .unknown false)]])]⟩
      hopping := some { size := ⟨60000⟩, advance := ⟨10000⟩ } } 0

/-- The statement of that query up to its source. -/
def yearlyFront : String :=
  "CREATE TABLE IF NOT EXISTS c WITH (KAFKA_TOPIC='c', VALUE_FORMAT='AVRO', PARTITIONS=1, " ++
    "REPLICAS=1) AS\nSELECT EXTRACT(YEAR FROM CAST(LATEST_BY_OFFSET(TS) AS TIMESTAMP)) AS Y"

/-- The target of that statement. -/
def yearlyTarget : HoppingTarget :=
  { target := { name := "c" } }

/-- The year has a FROM of its own, and the name behind that is exchanged. -/
theorem retargeted_source_yearlyRows :
    ∃ (sql sql' : String) (d : Composition) (w : Windowing),
      (({} : Compiler).run ⟨0⟩ yearlyRows ((Step.hopping yearlyTarget).withInput (some " rows "))
        (Memo.start none)).1 = .ok (.one sql) ∧
      (({} : Compiler).run ⟨0⟩ yearlyRows ((Step.hopping yearlyTarget).withInput none)
        (Memo.start none)).1 = .ok (.one sql') ∧
      sql'.toList = w.text (d.statement yearlyRows).sql ∧
      sql.toList = (w.withInput (some " rows ")).text (d.statement yearlyRows).sql ∧
      w.plain (d.statement yearlyRows).sql = yearlyFront.toList ++ fromLine ++
        ("T".toList ++ w.behind (d.statement yearlyRows) ⟨"T", false, none⟩) ∧
      (w.withInput (some " rows ")).plain (d.statement yearlyRows).sql ≠
        yearlyFront.toList ++ fromLine ++
          ("rows".toList ++ w.behind (d.statement yearlyRows) ⟨"T", false, none⟩) := by
  have hstatement : (({} : Compiler).rawClauses yearlyRows (yearlyTarget.plan yearlyRows)
      (Memo.start none)).1.map (fun raw =>
        let s := (yearlyTarget.plan yearlyRows).statement yearlyRows raw
        (s.upToSource, s.clauses.source)) = .ok (yearlyFront, "FROM T") := by decide +kernel
  obtain ⟨raw, hraw, hparts⟩ := Compiler.ok_of_map_ok hstatement
  obtain ⟨hupTo, hfrom⟩ := Prod.mk.inj hparts
  have hwindow : yearlyTarget.window ⟨0⟩ yearlyRows =
      .ok (.hopping { size := ⟨60000⟩, advance := ⟨10000⟩ }) := by decide +kernel
  have hrun := Compiler.run_hopping_withInput hwindow hraw (some " rows ")
  have hrun' := Compiler.run_hopping_withInput hwindow hraw none
  obtain ⟨-, -, htexts⟩ := retargeted_source_iff {} ⟨0⟩ yearlyRows (.hopping yearlyTarget)
    (Memo.start none) " rows " "rows" rfl (by decide +kernel) trivial
  obtain ⟨d, w, hd, hw, htext', htext, hsource⟩ := htexts _ _ hrun hrun'
  have hsame := Compiler.statement_of_hopping hd hraw
  have hfront : w.front (d.statement yearlyRows) = yearlyFront.toList := by
    unfold Windowing.front
    rw [Compiler.overrides_of_windowing? hw, hsame, hupTo]
    rfl
  have hclause : (d.statement yearlyRows).clauses.source = FromClause.sql ⟨"T", false, none⟩ := by
    rw [hsame, hfrom]
    decide
  obtain ⟨hplain, -, hexact, -⟩ := hsource ⟨"T", false, none⟩ hclause (by decide)
  rw [hfront] at hplain hexact
  refine ⟨_, _, d, w, hrun, hrun', htext', htext, hplain, fun heq => ?_⟩
  have hnames := (hexact (by decide +kernel) (by decide) heq).1
  have hextract : 122 < yearlyFront.toList.length ∧
      (sourceAt? (yearlyFront.toList.take 122).reverse
        (yearlyFront.toList.drop 122 ++ fromWord)).isNone = false := by decide +kernel
  exact absurd (hnames 122 hextract.1) (by rw [hextract.2]; decide)

end StreamQuery
