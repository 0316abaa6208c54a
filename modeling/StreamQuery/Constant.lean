import StreamQuery.DataType
import StreamQuery.Double.Shortest
import StreamQuery.Text.Ascii

/-!
# Constants

A constant is written as a SQL literal. A quote inside a string is written twice, so the literal
cannot end early; a list is written as its members, separated by commas and without brackets.
-/

namespace StreamQuery

/-- A constant of a query. -/
inductive Constant where
  | null
  | bool (value : Bool)
  /-- An integer of 64 bits. -/
  | int (value : Int)
  | double (value : Double)
  | string (value : String)
  | list (items : List Constant)
deriving Inhabited

namespace Constant

/-- The body of a string literal: every quote is written twice. -/
def doubleQuotes : List Char → List Char
  | [] => []
  | c :: rest => if c == '\'' then '\'' :: '\'' :: doubleQuotes rest else c :: doubleQuotes rest

/-- A string as a SQL literal. -/
def quoted (s : String) : String :=
  String.ofList ('\'' :: doubleQuotes s.toList ++ ['\''])

theorem doubleQuotes_quote (s : List Char) :
    doubleQuotes ('\'' :: s) = '\'' :: '\'' :: doubleQuotes s := rfl

theorem doubleQuotes_cons {c : Char} (hc : c ≠ '\'') (s : List Char) :
    doubleQuotes (c :: s) = c :: doubleQuotes s :=
  if_neg (by simpa using hc)

theorem toList_quoted (s : String) :
    (quoted s).toList = '\'' :: (doubleQuotes s.toList ++ ['\'']) :=
  String.toList_ofList

mutual

/-- The SQL text of a constant. -/
def sql : Constant → String
  | .null => "NULL"
  | .bool true => "true"
  | .bool false => "false"
  | .int value => toString value
  | .double value => value.text
  | .string value => quoted value
  | .list items => Text.joined ", " (sqlItems items)

/-- The SQL texts of the members of a list. -/
def sqlItems : List Constant → List String
  | [] => []
  | item :: rest => item.sql :: sqlItems rest

end

/-- The static type of a constant; a list has the type of its first member. -/
def type : Constant → DataType
  | .null => .unknown
  | .bool _ => .bool
  | .int _ => .long
  | .double _ => .double
  | .string _ => .string
  | .list [] => .list .unknown
  | .list (item :: _) => .list item.type

end Constant

end StreamQuery
