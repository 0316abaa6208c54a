import StreamQuery.Hub.Plan
import StreamQuery.Text.Natural

/-!
# Side values

Named JSON values that a query carries beside its clauses. Values of the wrong shape count as absent
where a single number or text is wanted, and are a fault where a rule set is wanted.
-/

namespace StreamQuery

/-- The side values of a query. -/
structure Extras where
  /-- The values by name, in canonical form. -/
  values : NameMap Json := NameMap.empty
deriving Inhabited

namespace Extras

/-- Partitions of the sink topic. -/
def partitionsKey : String := "sink/partitions"

/-- Replicas of the sink topic. -/
def replicasKey : String := "sink/replicas"

/-- Retention of the sink topic in milliseconds. -/
def retentionKey : String := "sink/retentionMs"

/-- Cleanup policy of the sink topic. -/
def cleanupKey : String := "sink/cleanupPolicy"

/-- Cleanup policy of the sink topic, in dotted spelling. -/
def cleanupDottedKey : String := "sink/cleanup.policy"

/-- Full name of the value schema. -/
def valueSchemaKey : String := "valueSchemaFullName"

/-- The emit mode. -/
def emitKey : String := "emit"

/-- Hub rules given by the caller. -/
def rulesKey : String := "select/overrides"

/-- Output names left out by the caller. -/
def excludeKey : String := "select/exclude"

/-- Columns known to be on the hub. -/
def hubColumnsKey : String := "hub/availableColumns"

/-- All well-known names. -/
def keys : List String :=
  [partitionsKey, replicasKey, retentionKey, cleanupKey, cleanupDottedKey, valueSchemaKey, emitKey,
    rulesKey, excludeKey, hubColumnsKey]

/-- Adds or replaces a value. -/
def insert (x : Extras) (key : String) (value : Json) : Extras :=
  ⟨x.values.insert key value.canonical⟩

/-- The side values given by the fields of an object. -/
def ofFields (fields : List (String × Json)) : Extras :=
  fields.foldl (fun x field => x.insert field.1 field.2) {}

/-- The value under a name. -/
def get? (x : Extras) (key : String) : Option Json :=
  x.values.get? key

/-- Equality of all values. -/
def same (x other : Extras) : Bool :=
  Json.sameFields x.values.entries other.values.entries

/-- A text, trimmed, unless it is blank or no string. -/
def text? (x : Extras) (key : String) : Option String := do
  Text.nonBlank (← (← x.get? key).str?)

/-- A positive number of 64 bits, as an integer or as a string. -/
def positive? (x : Extras) (key : String) : Option Nat :=
  let number := match x.get? key with
    | some (.str s) => Text.natural? 64 (Text.trim s.toList)
    | some value => value.nat? 64
    | none => none
  number.filter (0 < ·)

/-- The partition count, if it fits 32 bits. -/
def partitions? (x : Extras) : Option Nat :=
  (x.positive? partitionsKey).filter (· < Nat.pow 2 32)

/-- The replica count, if it fits 32 bits. -/
def replicas? (x : Extras) : Option Nat :=
  (x.positive? replicasKey).filter (· < Nat.pow 2 32)

/-- The retention in milliseconds. -/
def retentionMs? (x : Extras) : Option Nat :=
  x.positive? retentionKey

/-- The cleanup policy; the dotted spelling counts only without the other. -/
def cleanupPolicy? (x : Extras) : Option String :=
  (x.text? cleanupKey).or (x.text? cleanupDottedKey)

/-- The full name of the value schema. -/
def valueSchema? (x : Extras) : Option String :=
  x.text? valueSchemaKey

/-- The emit mode. -/
def emit? (x : Extras) : Option String :=
  x.text? emitKey

/-- True when the emit mode mentions `FINAL`, ignoring case. -/
def emitsFinal (x : Extras) : Bool :=
  x.emit?.any fun mode => Text.occurs "FINAL".toList (Text.upper mode).toList

/-- A value of a certain shape; absent is no fault, another shape is. -/
def decode {α : Type} (x : Extras) (key : String) (shape : Json → Option α) :
    Except Fault (Option α) :=
  match x.get? key with
  | none => .ok none
  | some value =>
    match shape value with
    | some a => .ok (some a)
    | none => .error (.malformedExtra key)

/-- The hub rules given by the caller. -/
def rules (x : Extras) : Except Fault (NameMap HubRule) := do
  return (← x.decode rulesKey (Json.map? HubRule.ofJson?)).getD NameMap.empty

/-- The output names left out by the caller. -/
def exclude (x : Extras) : Except Fault NameSet := do
  return (← x.decode excludeKey Json.nameSet?).getD NameSet.empty

/-- The columns known to be on the hub. -/
def hubColumns (x : Extras) : Except Fault (Option NameSet) :=
  x.decode hubColumnsKey Json.nameSet?

/-- The plan given by the caller. -/
def callerPlan (x : Extras) : Except Fault HubPlan := do
  let rules ← x.rules
  let exclude ← x.exclude
  return ⟨rules, exclude⟩

end Extras

end StreamQuery
