import StreamQuery.Edit.Placement
import StreamQuery.Edit.WindowStart
import StreamQuery.Statement.Create

/-!
# Windowed statements

A windowed statement is a created statement whose finished text is edited: the emit mode and the
source can be replaced, and the window is placed behind the source. A projection over per-second
rows is read as a hub projection, and its outline is kept.
-/

namespace StreamQuery

/-- Replaces emit mode and source where asked, and places the window. -/
def WindowOverrides.apply (o : WindowOverrides) (window : Window) (sql : String) : String :=
  let sql := match o.emit.bind Text.nonBlank with
    | some emit => Text.replaceAll "EMIT CHANGES" emit sql
    | none => sql
  let sql := match o.input.bind Text.nonBlank with
    | some input => Placement.retarget input sql
    | none => sql
  Placement.place window.sql sql

namespace WindowedTarget

/-- The window of a target. -/
def window (t : WindowedTarget) (grace : Option Nat) : Window :=
  let size := Timeframe.ofToken t.timeframe
  match t.hop with
  | none => (Window.tumbling size none).withGrace grace
  | some advance => (Window.hopping { size := size.duration, advance }).withGrace grace

/-- Checks the texts of a target, and that a hopping window has grouping keys. -/
def check (t : WindowedTarget) (scope : Scope) (q : Query) : Except Fault Unit := do
  Compiler.checkTarget scope q t.name
  requireText "timeframe" t.timeframe
  if t.hop.isSome && q.groupBy.isNone then throw .hoppingNeedsGroupBy

/-- The plan of a target with the projection that it compiles. -/
def plan (t : WindowedTarget) (q : Query) (projection : Option Lambda) : CreatePlan where
  target := { name := t.name, options := t.options }
  projection := projection
  sink := (SinkOptions.ofExtras q.extras).withDefaultSizing
  shape := if t.hop.isSome then .hopping else .tumbling

/-- The text of an assembled statement after its edits. -/
def edit (t : WindowedTarget) (q : Query) (projection : Option Lambda) (sql : String) : String :=
  let sql := t.overrides.apply (t.window q.grace) sql
  if t.hop.isSome then WindowStart.dropAll (projection.any Lambda.callsWindowStart) sql else sql

end WindowedTarget

namespace HoppingTarget

/-- The window of a target: that of the query, which needs grouping keys. -/
def window (t : HoppingTarget) (scope : Scope) (q : Query) : Except Fault Window := do
  Compiler.checkTarget scope q t.target.name
  match q.hopping with
  | none => throw .noHoppingWindow
  | some window =>
    if q.groupBy.isNone then throw .hoppingNeedsGroupBy
    return .hopping window

/-- The plan of a target. -/
def plan (t : HoppingTarget) (q : Query) : CreatePlan where
  target := t.target
  projection := q.projection
  sink := (SinkOptions.ofExtras q.extras).withDefaultSizing
  shape := .hopping

/-- The text of an assembled statement after its edits. -/
def edit (t : HoppingTarget) (q : Query) (window : Window) (sql : String) : String :=
  WindowStart.dropAll (q.projection.any Lambda.callsWindowStart) (t.overrides.apply window sql)

end HoppingTarget

namespace Compiler

/-- The name of the source that a windowed statement reads: the override, or the primary source. -/
def inputName? (q : Query) (input : Option String) : Option String :=
  (input.bind Text.nonBlank).or (q.sources.head?.map Source.name)

/-- The projection as it reads a hub, if the input is one and the query does not come with the
outline of another projection. The outline is kept. -/
def hubProjection (c : Compiler) (q : Query) (input : Option String) (memo : Memo) :
    Option Lambda × Memo :=
  match q.projection, inputName? q input with
  | some projection, some name =>
    if c.settings.isHubSource name && memo.outline.all (·.hubInput) then
      let adapted := projection.forHub
      (some adapted, (memo.withOutline (Outline.ofProjection adapted true)).2)
    else (none, memo)
  | _, _ => (none, memo)

/-- Compiles a statement over a window of a timeframe. -/
def windowed (c : Compiler) (scope : Scope) (q : Query) (target : WindowedTarget) (memo : Memo) :
    Compilation String :=
  match target.check scope q with
  | .error e => (.error e, memo)
  | .ok () =>
    let (adapted, memo) := c.hubProjection q target.overrides.input memo
    let projection := adapted.or q.projection
    let (statement, memo) := c.assemble q (target.plan q projection) memo
    (statement.map fun s => target.edit q projection s.sql, memo)

/-- Compiles a statement over the query's own hopping window. -/
def hopping (c : Compiler) (scope : Scope) (q : Query) (target : HoppingTarget) (memo : Memo) :
    Compilation String :=
  match target.window scope q with
  | .error e => (.error e, memo)
  | .ok window =>
    let (statement, memo) := c.assemble q (target.plan q) memo
    (statement.map fun s => target.edit q window s.sql, memo)

/-- Compiles one windowed statement for each of the given timeframes; the first fault stops. -/
def allOf (c : Compiler) (scope : Scope) (q : Query) (nameFor : String → String) :
    List String → Memo → Compilation (List (String × String))
  | [], memo => (.ok [], memo)
  | timeframe :: rest, memo =>
    match c.windowed scope q { name := nameFor timeframe, timeframe } memo with
    | (.error e, memo) => (.error e, memo)
    | (.ok sql, memo) =>
      let (others, memo) := allOf c scope q nameFor rest memo
      (others.map fun others => (timeframe, sql) :: others, memo)

/-- Compiles one windowed statement for each timeframe of the query. -/
def all (c : Compiler) (scope : Scope) (q : Query) (nameFor : String → String) (memo : Memo) :
    Compilation (List (String × String)) :=
  c.allOf scope q nameFor q.windows memo

end Compiler

end StreamQuery
