import StreamQuery.Settings.Basic
import StreamQuery.Json.Decode
import StreamQuery.Json.Reader

/-!
# Settings documents

Settings are written as a JSON record whose missing fields take their defaults. Numbers must be
written as integers; precision and scale fit a byte.
-/

namespace StreamQuery

/-- The size of a decimal, both fields required. -/
def DecimalSize.ofJson? (j : Json) : Option DecimalSize := do
  match ← j.record? ["precision", "scale"] with
  | [precision, scale] =>
    return ⟨← Json.required (Json.nat? 8) precision, ← Json.required (Json.nat? 8) scale⟩
  | _ => none

/-- The sizes of decimals. -/
def DecimalSettings.ofJson? (j : Json) : Option DecimalSettings := do
  match ← j.record? ["precision", "scale", "overrides"] with
  | [precision, scale, overrides] =>
    let default : DecimalSettings := {}
    return {
      size := ⟨← Json.optional (Json.nat? 8) default.size.precision precision,
        ← Json.optional (Json.nat? 8) default.size.scale scale⟩
      overrides := ← Json.optional (Json.map? DecimalSize.ofJson?) NameMap.empty overrides }
  | _ => none

/-- Settings from a JSON value. -/
def Settings.ofJson? (j : Json) : Option Settings := do
  match ← j.record?
      ["decimal", "default_within_seconds", "hub_rows_suffix", "max_group_by_keys"] with
  | [decimal, within, hubSuffix, maxGroupKeys] =>
    let default : Settings := {}
    return {
      decimal := ← Json.optional DecimalSettings.ofJson? default.decimal decimal
      withinSeconds := ← Json.optional (Json.nat? 64) default.withinSeconds within
      hubSuffix := ← Json.optional Json.str? default.hubSuffix hubSuffix
      maxGroupKeys := ← Json.optional (Json.nat? 64) default.maxGroupKeys maxGroupKeys }
  | _ => none

/-- Settings from the text of a document. -/
def Settings.ofDocument? (s : String) : Option Settings := do
  Settings.ofJson? (← Json.read? s)

end StreamQuery
