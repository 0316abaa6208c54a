/-!
# White space

White space is the Unicode property of that name, which is wider than the ASCII blanks. Names,
options and clause bodies are trimmed by it, so an option that is all white space counts as absent.
-/

namespace StreamQuery.Text

/-- White space characters, by the Unicode property `White_Space`. -/
def isBlank (c : Char) : Bool :=
  let n := c.toNat
  (0x9 ≤ n && n ≤ 0xD) || n == 0x20 || n == 0x85 || n == 0xA0 || n == 0x1680 ||
    (0x2000 ≤ n && n ≤ 0x200A) || n == 0x2028 || n == 0x2029 || n == 0x202F || n == 0x205F ||
    n == 0x3000

/-- Drops leading white space. -/
def trimStart (s : List Char) : List Char :=
  s.dropWhile isBlank

/-- Drops trailing white space. -/
def trimEnd (s : List Char) : List Char :=
  (s.reverse.dropWhile isBlank).reverse

/-- Drops white space on both sides. -/
def trim (s : List Char) : List Char :=
  trimEnd (trimStart s)

/-- The empty text has nothing to trim. -/
@[simp] theorem trim_nil : trim [] = [] := rfl

/-- A string without the white space around it. -/
def trimmed (s : String) : String :=
  String.ofList (trim s.toList)

/-- True when a string is empty or all white space. -/
def allBlank (s : String) : Bool :=
  trimmed s == ""

/-- The trimmed string, unless it is blank. -/
def nonBlank (s : String) : Option String :=
  if allBlank s then none else some (trimmed s)

end StreamQuery.Text
