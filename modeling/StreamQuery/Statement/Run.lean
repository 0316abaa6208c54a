import StreamQuery.Statement.Insert
import StreamQuery.Statement.Windowed

/-!
# Runs

A run is a sequence of compilations of one query. The memo is all that one compilation hands on to
the next.
-/

namespace StreamQuery

/-- One compilation. -/
inductive Step where
  | create (target : CreateTarget)
  | windowed (target : WindowedTarget)
  | hopping (target : HoppingTarget)
  | all (nameFor : String → String)
  | insert (target : InsertTarget)

/-- What a compilation produces. -/
inductive Output where
  | one (sql : String)
  | many (statements : List (String × String))
deriving DecidableEq, Inhabited

namespace Compiler

/-- Runs one compilation. -/
def run (c : Compiler) (scope : Scope) (q : Query) (step : Step) (memo : Memo) :
    Compilation Output :=
  match step with
  | .create target =>
    let (sql, memo) := c.create scope q target memo
    (sql.map .one, memo)
  | .windowed target =>
    let (sql, memo) := c.windowed scope q target memo
    (sql.map .one, memo)
  | .hopping target =>
    let (sql, memo) := c.hopping scope q target memo
    (sql.map .one, memo)
  | .all nameFor =>
    let (statements, memo) := c.all scope q nameFor memo
    (statements.map .many, memo)
  | .insert target => ((c.insert scope q target).map .one, memo)

/-- The memo after a sequence of compilations, each under a scope of its own. -/
def runAll (c : Compiler) (q : Query) (steps : List (Scope × Step)) (memo : Memo) : Memo :=
  steps.foldl (fun memo (scope, step) => (c.run scope q step memo).2) memo

end Compiler

end StreamQuery
