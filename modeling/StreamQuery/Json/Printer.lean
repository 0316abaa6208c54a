import StreamQuery.Json.Basic
import StreamQuery.Double.Shortest

/-!
# Writing JSON values

A value is written without blanks. Quotes, backslashes and control characters are escaped; a double
keeps a fraction, so that it reads back as a double.
-/

namespace StreamQuery.Json

/-- The character of a hexadecimal digit. -/
def hexChar (n : Nat) : Char :=
  Nat.digitChar n

/-- A character inside a string. -/
def escape (c : Char) : List Char :=
  if c == '"' then ['\\', '"']
  else if c == '\\' then ['\\', '\\']
  else if c.toNat < 0x20 then
    ['\\', 'u', '0', '0', hexChar (c.toNat / 16), hexChar (c.toNat % 16)]
  else [c]

/-- A string with its quotes. -/
def quoted (s : String) : String :=
  String.ofList ('"' :: s.toList.flatMap escape ++ ['"'])

/-- The text of a number. -/
def numberText : JsonNumber → String
  | .int i => toString i
  | .double d => if d.text.toList.contains '.' then d.text else d.text ++ ".0"

mutual

/-- The text of a value; what is unreadable is written as null. -/
def render : Json → String
  | .null => "null"
  | .bool true => "true"
  | .bool false => "false"
  | .num n => numberText n
  | .str s => quoted s
  | .arr items => "[" ++ renderItems items ++ "]"
  | .obj fields => "\x7b" ++ renderFields fields ++ "\x7d"
  | .unreadable => "null"

/-- The items of an array, separated by commas. -/
def renderItems : List Json → String
  | [] => ""
  | [item] => item.render
  | item :: rest => item.render ++ "," ++ renderItems rest

/-- The fields of an object, separated by commas. -/
def renderFields : List (String × Json) → String
  | [] => ""
  | [(name, value)] => quoted name ++ ":" ++ value.render
  | (name, value) :: rest => quoted name ++ ":" ++ value.render ++ "," ++ renderFields rest

end

end StreamQuery.Json
