import StreamQuery.Text.Ascii
import StreamQuery.Text.Split

/-!
# Partition lists

A partition list is folded into the grouping keys. Columns are compared by their identifier: without
qualifier and quotes, in capitals, so that `o.Symbol`, a quoted `SYMBOL` and `KEY->SYMBOL` are the
same.
-/

namespace StreamQuery.Partition

/-- The part of a column behind its qualifier. -/
def unqualified (column : List Char) : List Char :=
  Text.trim (Text.afterLast ['.'] (Text.afterLast ['-', '>'] (Text.trim column)))

/-- The qualifier of a column: what stands before the last arrow, or else before the last dot. -/
def qualifier (column : List Char) : List Char :=
  match Text.splitLast? ['-', '>'] (Text.trim column) with
  | some (before, _) => Text.trim before
  | none =>
    match Text.splitLast? ['.'] (Text.trim column) with
    | some (before, _) => Text.trim before
    | none => []

/-- Drops an empty argument list at the end. -/
def dropCall (name : List Char) : List Char :=
  match name.reverse with
  | ')' :: '(' :: rest => rest.reverse
  | _ => name

/-- Drops backticks or double quotes around a name. -/
def unquote (name : List Char) : List Char :=
  match name with
  | first :: rest =>
    if (first == '\x60' || first == '"') && rest.getLast? == some first then rest.dropLast else name
  | [] => []

/-- The identifier of a name: trimmed, without empty argument list and quotes, in capitals. -/
def normalized (name : List Char) : String :=
  Text.upper (String.ofList (unquote (dropCall (Text.trim name))))

/-- The identifier of a column, whatever its qualifier. -/
def groupKey (column : String) : String :=
  normalized (unqualified column.toList)

/-- The columns of a list, joined again. -/
def tidy (clause : String) : String :=
  Text.joined ", " (Text.columns clause)

/-- The identifiers of the columns of a list. -/
def identifiers (clause : String) : List String :=
  ((Text.columns clause).map groupKey).filter (· != "")

/-- A column of a partition list. -/
structure Item where
  /-- The column as written, trimmed. -/
  written : String
  bare : String
  name : String
  /-- The qualifier in capitals; empty if there is none. -/
  qualifier : String
deriving DecidableEq, Inhabited

namespace Item

/-- The item of a column. -/
def ofColumn (column : String) : Item where
  written := column
  bare := String.ofList (unqualified column.toList)
  name := groupKey column
  qualifier := Text.upper (String.ofList (Partition.qualifier column.toList))

/-- Items are ordered by identifier, then by qualifier. -/
def le (a b : Item) : Bool :=
  a.name < b.name || (a.name == b.name && a.qualifier ≤ b.qualifier)

/-- The text that tells distinct items apart. -/
def key (i : Item) : String :=
  if i.qualifier == "" then i.name else i.qualifier ++ "::" ++ i.name

/-- How an item is written: without qualifier the bare name, else as it was. -/
def text (i : Item) : String :=
  if i.qualifier == "" then i.bare else i.written

end Item

/-- Keeps the first item of each key. -/
def firsts (seen : List String) : List Item → List Item
  | [] => []
  | i :: rest =>
    if seen.contains i.key then firsts seen rest else i :: firsts (i.key :: seen) rest

/-- The items of a list that have an identifier, in order and without repetitions. -/
def items (clause : String) : List Item :=
  firsts [] ((((Text.columns clause).map Item.ofColumn).filter (·.name != "")).mergeSort Item.le)

/-- A partition list in order and without repetitions. -/
def dedup (clause : String) : String :=
  Text.joined ", " ((items clause).map Item.text)

/-- Appends the columns whose identifier is new. -/
def appendNew (columns : List String) : List String → List String
  | [] => columns
  | column :: rest =>
    if (columns.map groupKey).contains (groupKey column) then appendNew columns rest
    else appendNew (columns ++ [column]) rest

/-- Folds a partition list into the grouping keys; tells whether there was anything to fold. -/
def mergeInto (groupBy : Option String) (partition : String) : Option String × Bool :=
  match Text.columns partition with
  | [] => (groupBy, false)
  | columns =>
    let keys := match groupBy with
      | some body => Text.columns body
      | none => []
    (some (Text.joined ", " (appendNew keys columns)), true)

end StreamQuery.Partition
