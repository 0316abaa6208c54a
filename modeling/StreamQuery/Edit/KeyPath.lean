import StreamQuery.Clause.Basic
import StreamQuery.Query
import StreamQuery.Text.CaseFold
import StreamQuery.Text.WordChar

/-!
# Key paths

A key column of a table is read through its key: `ID` is written `KEY->ID`, or `key.ID` in dotted
style. The edit leaves alone what is quoted, what is a key path already, and names that follow AS.
-/

namespace StreamQuery

/-- How references to key columns are written. -/
inductive KeyPathStyle where
  /-- As plain columns; on a table, as arrows. -/
  | plain
  /-- Behind `key.`. -/
  | dot
  /-- Behind `KEY->`. -/
  | arrow
deriving DecidableEq, Inhabited

/-- What stands in front of a key column. -/
def KeyPathStyle.lead : KeyPathStyle → String
  | .plain => ""
  | .dot => "key."
  | .arrow => "KEY->"

/-- The key columns of a source, with its alias in the statement. -/
structure KeyBinding where
  /-- The alias; empty if the source has none. -/
  aliasName : String
  /-- The key columns in capitals, without repetitions. -/
  keys : List String
  style : KeyPathStyle
deriving DecidableEq, Inhabited

namespace KeyBinding

/-- The binding of a source. A table has arrows unless another style is asked for. -/
def ofSource (aliasName : String) (s : Source) (requested : KeyPathStyle) : KeyBinding where
  aliasName := aliasName
  keys := s.keyNames.foldl (fun keys key => if keys.contains key then keys else keys ++ [key]) []
  style := if requested == .plain && s.isTable then .arrow else requested

/-- The path of a key column. -/
def path (b : KeyBinding) (key : String) : String :=
  b.style.lead ++ key

/-- The bindings of the first two sources of a query. -/
def ofQuery (q : Query) (requested : KeyPathStyle) : List KeyBinding :=
  match q.sources with
  | [] => []
  | primary :: rest =>
    ofSource (if q.primaryAlias then primaryAlias else "") primary requested ::
      (rest.take 1).map fun joined => ofSource joinAlias joined requested

end KeyBinding

namespace Text

/-- What follows a whole word at a position, ignoring case; the word may hold other characters, but
must begin and end at a word boundary. -/
def afterWord? (word before rest : List Char) : Option (List Char) :=
  if wordBoundary before rest then
    (dropFolded? word rest).filter fun after =>
      wordBoundary ((rest.take word.length).reverse ++ before) after
  else none

/-- Writes a text for a whole word wherever `accept` holds of what is before and after. -/
def wordRule (word written : List Char) (accept : List Char → List Char → Bool) : Rule :=
  fun before rest =>
    (afterWord? word before rest).map fun after =>
      (word.length, if accept before after then written else rest.take word.length)

/-- True when a text, read backwards, ends with a given ending, up to ASCII case. -/
def endsWithName (before : List Char) (ending : String) : Bool :=
  (ending.toList.reverse.map Char.toLower).isPrefixOf (before.map Char.toLower)

/-- Quotation marks. -/
def isQuote (c : Char) : Bool :=
  c == '\x60' || c == '\'' || c == '"'

/-- True when a reference is neither part of a key path nor next to a quotation mark. -/
def unprefixed (before after : List Char) : Bool :=
  !(endsWithName before "KEY->" || endsWithName before "key." || before.head?.any isQuote ||
    after.head?.any isQuote)

/-- True when the word before the position is AS, so that a name that follows is a new one. -/
def renames (before : List Char) : Bool :=
  ((before.dropWhile isBlank).takeWhile isAlphabetic).map Char.toLower == ['s', 'a']

end Text

namespace KeyBinding

/-- Writes the bare word `KEY` as the path of a lone key column. -/
def styleLone (path : String) (clause : List Char) : List Char :=
  Text.substitute
    (Text.wordRule "KEY".toList path.toList fun before after =>
      !(List.isPrefixOf ['-', '>'] after) && !Text.renames before)
    clause

/-- Writes the references to one key column as key paths. -/
def styleKey (b : KeyBinding) (clause : List Char) (key : String) : List Char :=
  let rule :=
    if b.aliasName == "" then
      Text.wordRule key.toList (b.path key).toList fun before after =>
        Text.unprefixed before after && !Text.renames before
    else Text.wordRule (b.aliasName ++ "." ++ key).toList (b.path key).toList Text.unprefixed
  Text.substitute rule clause

/-- Writes the references to the key columns of one source as key paths. -/
def apply (b : KeyBinding) (clause : List Char) : List Char :=
  if b.style == .plain then clause
  else
    let clause := match b.keys with
      | [lone] => styleLone (b.path lone) clause
      | _ => clause
    b.keys.foldl b.styleKey clause

end KeyBinding

/-- Writes the references to key columns as key paths, source by source. -/
def styleKeys (bindings : List KeyBinding) (clause : String) : String :=
  String.ofList (bindings.foldl (fun clause b => b.apply clause) clause.toList)

end StreamQuery
