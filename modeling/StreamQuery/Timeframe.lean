import StreamQuery.Text.Ascii
import StreamQuery.Text.Natural

/-!
# Timeframes and durations

A timeframe token is a count and a unit, such as `5m`, `1wk` or `2mo`. Reading a token never fails:
a missing or zero count is one, and an unknown unit is minutes. A duration is written in the largest
unit up to days that measures its whole seconds.
-/

namespace StreamQuery

/-- The unit of a timeframe. -/
inductive TimeUnit where
  /-- Seconds, `s`. -/
  | seconds
  /-- Minutes, `m`. -/
  | minutes
  /-- Hours, `h`. -/
  | hours
  /-- Days, `d`. -/
  | days
  /-- Weeks of seven days, `wk`. -/
  | weeks
  /-- Months, `mo`, counted as thirty days. -/
  | months
deriving DecidableEq, Inhabited

/-- The letters of a unit in a token. -/
def TimeUnit.token : TimeUnit → String
  | .seconds => "s"
  | .minutes => "m"
  | .hours => "h"
  | .days => "d"
  | .weeks => "wk"
  | .months => "mo"

/-- The length of a unit in seconds. -/
def TimeUnit.inSeconds : TimeUnit → Nat
  | .seconds => 1
  | .minutes => 60
  | .hours => 3600
  | .days => 86400
  | .weeks => 604800
  | .months => 2592000

/-- A length of time in milliseconds. -/
structure Duration where
  millis : Nat
deriving DecidableEq, Inhabited

namespace Duration

/-- A length of whole seconds. -/
def ofSeconds (n : Nat) : Duration := ⟨n * 1000⟩

/-- The whole seconds of a length. -/
def seconds (d : Duration) : Nat :=
  d.millis / 1000

/-- A count of days, hours, minutes or seconds, in the largest unit that leaves no rest. -/
def text (d : Duration) : String :=
  let n := d.seconds
  if 86400 ≤ n && n % 86400 == 0 then toString (n / 86400) ++ " DAYS"
  else if 3600 ≤ n && n % 3600 == 0 then toString (n / 3600) ++ " HOURS"
  else if 60 ≤ n && n % 60 == 0 then toString (n / 60) ++ " MINUTES"
  else toString n ++ " SECONDS"

end Duration

/-- A count of time units. -/
structure Timeframe where
  count : Nat
  unit : TimeUnit
deriving DecidableEq, Inhabited

namespace Timeframe

/-- The count written in a token: a number of 32 bits, and one if there is none or it is zero. -/
def readCount (s : List Char) : Nat :=
  max 1 ((Text.natural? 32 (Text.trim s)).getD 0)

/-- The unit of a single letter; an unknown letter is minutes. -/
def unitOfLetter : Char → TimeUnit
  | 's' => .seconds
  | 'h' => .hours
  | 'd' => .days
  | _ => .minutes

/-- Reads a token from its characters, last first. -/
def ofReversed : List Char → Timeframe
  | [] => ⟨1, .minutes⟩
  | 'k' :: 'w' :: count => ⟨readCount count.reverse, .weeks⟩
  | 'o' :: 'm' :: count => ⟨readCount count.reverse, .months⟩
  | letter :: count => ⟨readCount count.reverse, unitOfLetter letter⟩

/-- Reads a token, ignoring case and white space around it. -/
def ofToken (token : String) : Timeframe :=
  ofReversed ((Text.trim token.toList).map Char.toLower).reverse

/-- The token of a timeframe. -/
def token (t : Timeframe) : String :=
  toString t.count ++ t.unit.token

/-- The length in seconds. -/
def seconds (t : Timeframe) : Nat :=
  t.count * t.unit.inSeconds

/-- The length as a duration. -/
def duration (t : Timeframe) : Duration :=
  .ofSeconds t.seconds

/-- The size operand of a tumbling window; weeks are written as days. -/
def sizeText (t : Timeframe) : String :=
  match t.unit with
  | .seconds => toString t.count ++ " SECONDS"
  | .minutes => toString t.count ++ " MINUTES"
  | .hours => toString t.count ++ " HOURS"
  | .days => toString t.count ++ " DAYS"
  | .weeks => toString (t.count * 7) ++ " DAYS"
  | .months => toString t.count ++ " MONTHS"

/-- Tokens ordered by length; tokens of equal length keep their order. -/
def sortTokens (tokens : List String) : List String :=
  tokens.mergeSort fun a b => (ofToken a).seconds ≤ (ofToken b).seconds

end Timeframe

end StreamQuery
