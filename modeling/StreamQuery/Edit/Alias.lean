import StreamQuery.Clause.From
import StreamQuery.Edit.Partition
import StreamQuery.Text.CaseFold
import StreamQuery.Text.WordChar

/-!
# Dropping aliases

Aliases of sources are dropped where a column belongs to one source only, and replaced by the name
of the source where both sources have it. References can be plain, in backticks or in double quotes;
each form has a pass of its own.
-/

namespace StreamQuery

/-- A source as it is known in a statement. -/
structure AliasScope where
  aliasName : String
  source : String
  /-- The identifiers of its columns. -/
  columns : List String
deriving DecidableEq, Inhabited

/-- The sources of a FROM clause with their columns. -/
def FromClause.scopes (f : FromClause) (sources : List Source) : List AliasScope :=
  f.aliases.zipIdx.map fun ((aliasName, source), i) =>
    { aliasName, source
      columns := match sources[i]? with
        | some s => s.identifiers.members.filter (· != "")
        | none => [] }

namespace AliasScope

/-- True when more than one scope has the column. -/
def isAmbiguous (scopes : List AliasScope) (column : String) : Bool :=
  1 < scopes.countP fun s => s.columns.contains column

/-- The form of a reference behind its alias. -/
structure Form where
  /-- The quotation mark around the column. -/
  quote : Option Char
  starts : Char → Bool
  holds : Char → Bool

/-- A column text in its quotation marks. -/
def Form.write (f : Form) (column : List Char) : List Char :=
  match f.quote with
  | some q => q :: column ++ [q]
  | none => column

/-- The column at the start of a text: as many characters as it can hold, and at least one. -/
def Form.name? (f : Form) (rest : List Char) : Option (List Char) :=
  let name := rest.takeWhile f.holds
  if name.head?.any f.starts then some name else none

/-- The column of a reference behind its alias. -/
def Form.column? (f : Form) (rest : List Char) : Option (List Char) :=
  match f.quote with
  | none => f.name? rest
  | some q =>
    match rest with
    | first :: inner =>
      if first == q then
        (f.name? inner).filter fun name => (inner.drop name.length).head? == some q
      else none
    | [] => none

/-- The column of a reference through an alias; the alias is a whole word, ignoring case. -/
def reference? (aliasName : List Char) (f : Form) (before rest : List Char) : Option (List Char) :=
  if Text.wordBoundary before rest then (Text.dropFolded? (aliasName ++ ['.']) rest).bind f.column?
  else none

/-- The rule that writes every reference of a form anew. -/
def referenceRule (aliasName : List Char) (f : Form) (write : List Char → List Char) : Text.Rule :=
  fun before rest =>
    (reference? aliasName f before rest).map fun column =>
      (aliasName.length + 1 + (f.write column).length, write column)

/-- Any text in quotation marks. -/
def anyQuoted (q : Char) : Form :=
  ⟨some q, (· != q), (· != q)⟩

/-- A name in quotation marks. -/
def nameQuoted (q : Char) : Form :=
  ⟨some q, Text.isNameChar, Text.isNameChar⟩

/-- The forms of references in a SELECT list. -/
def selectForms : List Form :=
  [anyQuoted '\x60', anyQuoted '"', ⟨none, Text.isNameStart, Text.isNameChar⟩]

/-- The forms of references in other clauses. -/
def clauseForms : List Form :=
  [nameQuoted '\x60', nameQuoted '"', ⟨none, Text.isNameChar, Text.isNameChar⟩]

/-- Drops the alias of the only source from a SELECT list, unless aliases are to be kept. -/
def dropFromSelect (scopes : List AliasScope) (preserve : Bool) (select : String) : String :=
  match scopes with
  | [scope] =>
    if preserve then select
    else String.ofList (selectForms.foldl
      (fun text f => Text.substitute (referenceRule scope.aliasName.toList f f.write) text)
      select.toList)
  | _ => select

/-- A column without its alias, behind the name of its source if another source has it too. -/
def writeColumn (scopes : List AliasScope) (scope : AliasScope) (f : Form) (column : List Char) :
    List Char :=
  if isAmbiguous scopes (Partition.normalized column) then
    scope.source.toList ++ '.' :: f.write column
  else f.write column

/-- Drops the aliases from a clause other than SELECT, source by source. -/
def dropFromClause (scopes : List AliasScope) (clause : String) : String :=
  String.ofList (scopes.foldl
    (fun text scope => clauseForms.foldl
      (fun text f =>
        Text.substitute (referenceRule scope.aliasName.toList f (writeColumn scopes scope f)) text)
      text)
    clause.toList)

end AliasScope

end StreamQuery
