import StreamQuery.Text.Blank

/-!
# Names up to ASCII case

Host names are compared ignoring the case of ASCII letters, and dialect names are written in ASCII
capitals. Both maps leave every other character alone.
-/

namespace StreamQuery.Text

/-- ASCII letters in lower case, all else unchanged. -/
def lower (s : String) : String :=
  String.ofList (s.toList.map Char.toLower)

/-- ASCII letters in upper case, all else unchanged. -/
def upper (s : String) : String :=
  String.ofList (s.toList.map Char.toUpper)

/-- Equality up to the case of ASCII letters. -/
def sameName (a b : String) : Bool :=
  lower a == lower b

/-- Equality up to case is an equality of lower case forms. -/
theorem sameName_iff {a b : String} : sameName a b = true ↔ lower a = lower b := by
  simp [sameName]

/-- A name equals itself up to case. -/
@[simp] theorem sameName_self (a : String) : sameName a a = true := by
  simp [sameName]

/-- Equality up to case is symmetric. -/
theorem sameName_comm (a b : String) : sameName a b = sameName b a := by
  simp only [sameName]
  exact Bool.beq_comm

/-- True when `part` occurs somewhere in the text. -/
def occurs (part : List Char) : List Char → Bool
  | [] => part.isEmpty
  | c :: cs => part.isPrefixOf (c :: cs) || occurs part cs

/-- Members of a list of strings joined by a separator. -/
def joined (sep : String) (parts : List String) : String :=
  String.intercalate sep parts

/-- Identifier spelling of a host name: ASCII letters in capitals, digits and underscores kept, and
an underscore for every other character, so the result needs no quotes. -/
def identifier (name : String) : String :=
  String.ofList (name.toList.map fun c => if c.isAlphanum || c == '_' then c.toUpper else '_')

end StreamQuery.Text
