import StreamQuery.Text.Blank

/-!
# Lists and paths in a text

Column lists are separated by commas, and a column can carry a qualifier in front of a dot or an
arrow.
-/

namespace StreamQuery.Text

/-- The parts of a text between separators, in order; a text without separator is one part. -/
def splitOn (sep : Char) : List Char → List (List Char)
  | [] => [[]]
  | c :: cs =>
    match splitOn sep cs with
    | [] => [[c]]
    | part :: parts => if c == sep then [] :: part :: parts else (c :: part) :: parts

/-- A split has at least one part. -/
theorem splitOn_ne_nil (sep : Char) (s : List Char) : splitOn sep s ≠ [] := by
  cases s with
  | nil => simp [splitOn]
  | cons c cs =>
    simp only [splitOn]
    split
    · simp
    · split <;> simp

/-- The trimmed, non-empty parts of a comma separated list. -/
def columns (clause : String) : List String :=
  ((splitOn ',' clause.toList).map fun part => String.ofList (trim part)).filter (· != "")

/-- Splits a text at the last occurrence of a non-empty separator, which belongs to neither side. -/
def splitLast? (sep : List Char) : List Char → Option (List Char × List Char)
  | [] => none
  | c :: cs =>
    match splitLast? sep cs with
    | some (before, after) => some (c :: before, after)
    | none => if sep.isPrefixOf (c :: cs) then some ([], (c :: cs).drop sep.length) else none

/-- The part after the last separator, or the whole text. -/
def afterLast (sep : List Char) (s : List Char) : List Char :=
  match splitLast? sep s with
  | some (_, after) => after
  | none => s

end StreamQuery.Text
