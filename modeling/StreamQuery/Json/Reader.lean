import StreamQuery.Json.Token

/-!
# Reading JSON documents

The reader is a fold over the tokens whose state holds the open containers, innermost first. An
object one of whose names spells no text is itself unreadable.
-/

namespace StreamQuery.Json

/-- A container that is still open, with what it holds so far, last first. -/
inductive Frame where
  | array (items : List Json)
  /-- An object whose field `name` is being read. -/
  | object (fields : List (Option String × Json)) (name : Option String)

/-- What the reader expects next. -/
inductive Expect where
  | value (outer : List Frame)
  /-- A value or the end of the array that has just been opened. -/
  | firstItem (outer : List Frame)
  | afterItem (items : List Json) (outer : List Frame)
  /-- A field name, or the end of the object if it has just been opened. -/
  | name (fields : List (Option String × Json)) (opened : Bool) (outer : List Frame)
  | colon (fields : List (Option String × Json)) (name : Option String) (outer : List Frame)
  | afterField (fields : List (Option String × Json)) (outer : List Frame)
  | done (value : Json)

/-- The object with the given fields, last first. -/
def closed (fields : List (Option String × Json)) : Json :=
  match fields.reverse.mapM fun field => field.1.map fun name => (name, field.2) with
  | some fields => .obj fields
  | none => .unreadable

/-- What is expected after a complete value. -/
def complete (value : Json) : List Frame → Expect
  | [] => .done value
  | .array items :: outer => .afterItem (value :: items) outer
  | .object fields name :: outer => .afterField ((name, value) :: fields) outer

/-- What is expected after a token that starts a value. -/
def startValue? (outer : List Frame) : Token → Option Expect
  | .word value => some (complete value outer)
  | .string (some text) => some (complete (.str text) outer)
  | .number (some value) => some (complete (.num value) outer)
  | .string none => some (complete .unreadable outer)
  | .number none => some (complete .unreadable outer)
  | .openArray => some (.firstItem outer)
  | .openObject => some (.name [] true outer)
  | _ => none

/-- One step of the reader. -/
def Expect.next? : Expect → Token → Option Expect
  | .value outer, token => startValue? outer token
  | .firstItem outer, .closeArray => some (complete (.arr []) outer)
  | .firstItem outer, token => startValue? (.array [] :: outer) token
  | .afterItem items outer, .comma => some (.value (.array items :: outer))
  | .afterItem items outer, .closeArray => some (complete (.arr items.reverse) outer)
  | .name fields _ outer, .string label => some (.colon fields label outer)
  | .name _ true outer, .closeObject => some (complete (.obj []) outer)
  | .colon fields label outer, .colon => some (.value (.object fields label :: outer))
  | .afterField fields outer, .comma => some (.name fields false outer)
  | .afterField fields outer, .closeObject => some (complete (closed fields) outer)
  | _, _ => none

/-- Reads a document; `none` if the text is not one JSON value. -/
def read? (s : String) : Option Json := do
  let tokens ← tokens? s
  match ← tokens.foldlM Expect.next? (.value []) with
  | .done value => some value
  | _ => none

end StreamQuery.Json
