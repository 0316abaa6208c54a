import StreamQuery.NameMap
import StreamQuery.Text.Ascii

/-!
# Settings

What every compilation shares: the size of decimals, with exceptions for single properties, the time
bound of joins, the name ending that marks streams of per-second rows, and the number of grouping
keys.
-/

namespace StreamQuery

/-- Precision and scale of a decimal. -/
structure DecimalSize where
  precision : Nat
  /-- The number of digits after the point. -/
  scale : Nat
deriving DecidableEq, Inhabited

/-- The dialect type of decimals of a size. -/
def DecimalSize.sqlType (size : DecimalSize) : String :=
  "DECIMAL(" ++ toString size.precision ++ ", " ++ toString size.scale ++ ")"

/-- The sizes of decimals. -/
structure DecimalSettings where
  /-- The size where nothing more specific is known. -/
  size : DecimalSize := ⟨18, 2⟩
  /-- Sizes of single properties, under names of the form `Entity.Property`. -/
  overrides : NameMap DecimalSize := NameMap.empty
deriving DecidableEq, Inhabited

/-- The size of a property: the first override whose name agrees up to case, or the common size. -/
def DecimalSettings.resolve (d : DecimalSettings) (entity property : String) : DecimalSize :=
  let name := entity ++ "." ++ property
  match d.overrides.entries.find? fun entry => Text.sameName entry.1 name with
  | some entry => entry.2
  | none => d.size

/-- The settings of a compiler. -/
structure Settings where
  decimal : DecimalSettings := {}
  /-- The time bound of a join without one of its own, in seconds. -/
  withinSeconds : Nat := 300
  /-- The ending of the names of per-second rows streams. -/
  hubSuffix : String := "_1s_rows"
  /-- The greatest number of grouping keys. -/
  maxGroupKeys : Nat := 10
deriving DecidableEq, Inhabited

/-- True when a name ends like that of a per-second rows stream, ignoring case. -/
def Settings.isHubSource (s : Settings) (name : String) : Bool :=
  let ending := (Text.lower s.hubSuffix).toList
  !ending.isEmpty && ending.isSuffixOf (Text.lower name).toList

end StreamQuery
