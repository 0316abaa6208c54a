/-!
# Substitution from left to right

A clause body is edited by a rule that looks at one position: it sees the text before, read
backwards, and the text from the position on, and answers how many characters it takes and what
stands in their place. `substitute` applies a rule at every position from left to right; neither the
characters that a rule has taken nor what it has written are looked at again. A rule that takes no
character writes before the next one.
-/

namespace StreamQuery.Text

/-- What a rule does at one position: the number of characters taken, and their replacement. -/
abbrev Rule := (before rest : List Char) → Option (Nat × List Char)

/-- Applies a rule to the text that follows `before`, after passing over `skip` characters. -/
def substituteFrom (rule : Rule) : (skip : Nat) → (before rest : List Char) → List Char
  | 0, before, [] =>
    match rule before [] with
    | some (_, written) => written
    | none => []
  | _ + 1, _, [] => []
  | skip + 1, before, c :: rest => substituteFrom rule skip (c :: before) rest
  | 0, before, c :: rest =>
    match rule before (c :: rest) with
    | none => c :: substituteFrom rule 0 (c :: before) rest
    | some (0, written) => written ++ c :: substituteFrom rule 0 (c :: before) rest
    | some (taken + 1, written) => written ++ substituteFrom rule taken (c :: before) rest

/-- Applies a rule at every position of a text, from left to right. -/
def substitute (rule : Rule) (s : List Char) : List Char :=
  substituteFrom rule 0 [] s

/-- The rule that replaces one fixed text by another. -/
def literalRule (part written : List Char) : Rule := fun _ rest =>
  if part.isPrefixOf rest then some (part.length, written) else none

/-- Replaces every occurrence of `part`, from left to right. -/
def replaceAll (part written : String) (s : String) : String :=
  String.ofList (substitute (literalRule part.toList written.toList) s.toList)

end StreamQuery.Text
