import StreamQuery.Timeframe

/-!
# Windows

A tumbling window is given by a timeframe, a hopping window by its size and the step between window
starts. Either can wait for late rows for a grace period.
-/

namespace StreamQuery

/-- The hopping window of a query. -/
structure HoppingWindow where
  size : Duration
  /-- The step between window starts. -/
  advance : Duration
  /-- How long late rows are waited for. -/
  grace : Option Duration := none
deriving DecidableEq, Inhabited

/-- A window clause. -/
inductive Window where
  /-- Windows side by side, with a grace period in seconds. -/
  | tumbling (size : Timeframe) (grace : Option Nat)
  | hopping (window : HoppingWindow)
deriving DecidableEq, Inhabited

namespace Window

/-- Sets the grace period, in seconds. -/
def withGrace (grace : Option Nat) : Window → Window
  | .tumbling size _ => .tumbling size grace
  | .hopping window => .hopping { window with grace := grace.map .ofSeconds }

/-- The grace part of a window clause. -/
def graceText : Option String → String
  | some grace => ", GRACE PERIOD " ++ grace
  | none => ""

/-- The text of a window clause. -/
def sql : Window → String
  | .tumbling size grace =>
    "WINDOW TUMBLING (SIZE " ++ size.sizeText ++
      graceText (grace.map fun n => toString n ++ " SECONDS") ++ ")"
  | .hopping window =>
    "WINDOW HOPPING (SIZE " ++ window.size.text ++ ", ADVANCE BY " ++ window.advance.text ++
      graceText (window.grace.map Duration.text) ++ ")"

end Window

end StreamQuery
