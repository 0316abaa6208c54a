import StreamQuery.Expr.Basic
import StreamQuery.Text.CaseFold
import StreamQuery.Text.Substitute
import StreamQuery.Text.WordChar

/-!
# Window starts in hopping statements

Columns that are the bare window start are taken out of a finished hopping statement; the one named
`EndTs` becomes the end of the window if the projection asks for the start of its window.
-/

namespace StreamQuery

/-- True when a projection asks for the start of its window. -/
def Lambda.callsWindowStart (projection : Lambda) : Bool :=
  projection.body.anyNode fun
    | .call method _ _ => method.name == "WindowStart"
    | _ => false

namespace WindowStart

/-- What follows white space, of which there must be some. -/
def afterGap? (s : List Char) : Option (List Char) :=
  if s.head?.any Text.isBlank then some (s.dropWhile Text.isBlank) else none

/-- What follows a name. -/
def afterName? (s : List Char) : Option (List Char) :=
  if s.head?.any Text.isNameStart then some (s.dropWhile Text.isWord) else none

/-- Spaces and tabs. -/
def isSpace (c : Char) : Bool :=
  c == ' ' || c == '\t'

/-- What follows a comma, if there is one, with the spaces around it. -/
def afterComma (s : List Char) : List Char :=
  match s.dropWhile isSpace with
  | ',' :: rest => rest.dropWhile isSpace
  | rest => rest

/-- What follows a column that is the window start, with its comma. -/
def afterColumn? (s : List Char) : Option (List Char) := do
  let s ← afterGap? (← Text.dropFolded? "WINDOWSTART".toList s)
  let s ← afterGap? (← Text.dropFolded? "AS".toList s)
  return afterComma (← afterName? s)

/-- What follows a window start that is named `EndTs`, with or without AS. -/
def afterEnd? (s : List Char) : Option (List Char) := do
  let s ← afterGap? (← Text.dropFolded? "WINDOWSTART".toList s)
  let named := ((Text.dropFolded? "AS".toList s).bind afterGap?).getD s
  (Text.dropFolded? "ENDTS".toList named).filter fun after => !Text.startsWord after

/-- What follows a comma at the end of a column list, up to the word FROM on a new line. -/
def afterDangling? (s : List Char) : Option (List Char) :=
  match s with
  | ',' :: rest =>
    let gap := rest.takeWhile Text.isBlank
    let after := rest.dropWhile Text.isBlank
    if gap.getLast? == some '\n' && "FROM".toList.isPrefixOf after &&
        !Text.startsWord (after.drop 4) then some (after.drop 4)
    else none
  | _ => none

/-- The rule that writes a text for whatever a scanner passes over. -/
def scanRule (scan : List Char → Option (List Char)) (written : String) : Text.Rule :=
  fun _ rest => (scan rest).map fun after => (rest.length - after.length, written.toList)

/-- Takes out the columns that are the window start. -/
def strip (s : List Char) : List Char :=
  Text.substitute (scanRule afterColumn? "") s

/-- Turns window starts named `EndTs` into window ends. -/
def toEnd (s : List Char) : List Char :=
  Text.substitute (scanRule afterEnd? "WINDOWEND AS EndTs") s

/-- Takes out a comma that is left before FROM. -/
def dropDangling (s : List Char) : List Char :=
  Text.substitute (scanRule afterDangling? "\nFROM") s

/-- Takes the window starts out of a hopping statement. -/
def dropAll (asksForStart : Bool) (sql : String) : String :=
  let text := sql.toList
  let text := if asksForStart then text else strip text
  String.ofList (dropDangling (strip (toEnd text)))

end WindowStart

end StreamQuery
