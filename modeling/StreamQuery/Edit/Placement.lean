import StreamQuery.Text.Blank
import StreamQuery.Text.CaseFold
import StreamQuery.Text.WordChar

/-!
# Placing a window

A window clause stands right behind the source of a finished statement, and the source itself can be
exchanged. Both edits look for FROM with a name behind it. The window goes behind the first such
name that is followed by a semicolon or a keyword, with at most an alias between.
-/

namespace StreamQuery.Placement

/-- The word FROM with a name behind it. -/
structure SourceName where
  /-- FROM and the white space behind it. -/
  lead : List Char
  name : List Char
  after : List Char

/-- The source name at a position. -/
def sourceAt? (before rest : List Char) : Option SourceName :=
  if Text.wordBoundary before rest then
    match Text.dropFolded? "FROM".toList rest with
    | none => none
    | some behind =>
      let gap := behind.takeWhile Text.isBlank
      let named := behind.dropWhile Text.isBlank
      if !gap.isEmpty && named.head?.any Text.isNameStart then
        some ⟨rest.take 4 ++ gap, named.takeWhile Text.isWord, named.dropWhile Text.isWord⟩
      else none
  else none

/-- The words that end the source of a statement. -/
def keywords : List String :=
  ["JOIN", "WINDOW", "GROUP", "EMIT", "WHERE", "ON", "WITHIN"]

/-- True when a text starts with a keyword as a whole word, ignoring case. -/
def startsKeyword (rest : List Char) : Bool :=
  keywords.any fun word =>
    match Text.dropFolded? word.toList rest with
    | some after => !Text.startsWord after
    | none => false

/-- True when a text starts with a semicolon, or with a keyword behind white space. -/
def endsSource (rest : List Char) : Bool :=
  rest.head? == some ';' ||
    (rest.head?.any Text.isBlank && startsKeyword (rest.dropWhile Text.isBlank))

/-- The alias at the start of a text, with the white space before it and the text behind it. -/
def alias? (rest : List Char) : Option (List Char × List Char) :=
  let gap := rest.takeWhile Text.isBlank
  let named := rest.dropWhile Text.isBlank
  if !gap.isEmpty && (named.head?.any fun c => c.isAlpha || c == '_') && !startsKeyword named then
    some (gap ++ named.takeWhile Text.isWord, named.dropWhile Text.isWord)
  else none

/-- Where a window goes behind a source name: the text up to there, from FROM on, and the rest. -/
def SourceName.spot? (s : SourceName) : Option (List Char × List Char) :=
  match (alias? s.after).filter fun (_, after) => endsSource after with
  | some (aliasName, after) => some (s.lead ++ s.name ++ aliasName, after)
  | none => if endsSource s.after then some (s.lead ++ s.name, s.after) else none

/-- Exchanges the first source name in the text that follows `before`. -/
def retargetFrom (input : List Char) : (before rest : List Char) → List Char
  | _, [] => []
  | before, c :: rest =>
    match sourceAt? before (c :: rest) with
    | some s => s.lead ++ input ++ s.after
    | none => c :: retargetFrom input (c :: before) rest

/-- Exchanges the first source name of a statement. -/
def retarget (input sql : String) : String :=
  String.ofList (retargetFrom input.toList [] sql.toList)

/-- Puts a window into the text that follows `before`, after passing over `skip` characters. -/
def placeFrom (window : List Char) : (skip : Nat) → (before rest : List Char) → List Char
  | _, _, [] => []
  | skip + 1, before, c :: rest => c :: placeFrom window skip (c :: before) rest
  | 0, before, c :: rest =>
    match sourceAt? before (c :: rest) with
    | none => c :: placeFrom window 0 (c :: before) rest
    | some s =>
      match s.spot? with
      | some (upTo, after) => upTo ++ ' ' :: window ++ after
      | none => c :: placeFrom window (s.lead.length + s.name.length - 1) (c :: before) rest

/-- Puts a window behind the source of a statement, if there is a place for it. -/
def place (window sql : String) : String :=
  String.ofList (placeFrom window.toList 0 [] sql.toList)

end StreamQuery.Placement
