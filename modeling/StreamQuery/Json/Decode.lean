import StreamQuery.Json.Basic

/-!
# Records and maps in JSON documents

A record is written as an object, or as an array of its fields in declaration order whose missing
fields stand at the end. In an object, unknown fields are passed over, and a field may occur only
once. A map is an object, and a repeated name keeps its last value.
-/

namespace StreamQuery.Json

/-- The single value of a field: absent, present, or an error if the field is repeated. -/
def field? (name : String) (fields : List (String × Json)) : Option (Option Json) :=
  match fields.filter fun field => field.1 == name with
  | [] => some none
  | [field] => some (some field.2)
  | _ => none

/-- The values of the fields of a record, in declaration order. -/
def record? (names : List String) : Json → Option (List (Option Json))
  | .obj fields => names.mapM fun name => field? name fields
  | .arr items =>
    if names.length < items.length then none
    else some (items.map some ++ List.replicate (names.length - items.length) none)
  | _ => none

/-- A field that may be absent: its value, or a default. -/
def optional {α : Type} (decode : Json → Option α) (default : α) : Option Json → Option α
  | none => some default
  | some value => decode value

/-- A field that must be present. -/
def required {α : Type} (decode : Json → Option α) : Option Json → Option α
  | none => none
  | some value => decode value

/-- A map with values of one kind. -/
def map? {α : Type} (decode : Json → Option α) (j : Json) : Option (NameMap α) := do
  let fields ← j.obj?
  let entries ← fields.mapM fun field => (decode field.2).map fun value => (field.1, value)
  return NameMap.ofList entries

/-- A set of names, written as an array of strings. -/
def nameSet? (j : Json) : Option NameSet := do
  let items ← j.arr?
  let names ← items.mapM Json.str?
  return NameSet.ofList names

end StreamQuery.Json
