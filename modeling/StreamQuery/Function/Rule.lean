import StreamQuery.Fault
import StreamQuery.Text.Substitute

/-!
# Function rules

A rule says how a host method is written in the dialect: as a call of a function, or through a
template whose placeholders `{0}`, `{1}`, … are replaced by the arguments, one placeholder after the
other.
-/

namespace StreamQuery

/-- How a host method is written in the dialect. -/
structure FunctionRule where
  /-- The dialect function, or the template of a rule that has only a template. -/
  function : String
  minArgs : Nat
  maxArgs : Option Nat
  /-- A text with placeholders, used instead of a plain call. -/
  template : Option String := none
  inGroupBy : Bool := false
  inOrderBy : Bool := false
  special : Bool := false
deriving DecidableEq, Inhabited

namespace FunctionRule

/-- A rule for exactly `count` arguments. -/
def exact (function : String) (count : Nat) : FunctionRule :=
  { function, minArgs := count, maxArgs := some count }

/-- A rule for a range of argument counts. -/
def between (function : String) (min : Nat) (max : Option Nat) : FunctionRule :=
  { function, minArgs := min, maxArgs := max }

/-- A rule that is all template. -/
def templated (count : Nat) (template : String) : FunctionRule :=
  { function := template, minArgs := count, maxArgs := some count, template := some template }

/-- Allows the method in grouping keys. -/
def grouping (r : FunctionRule) : FunctionRule :=
  { r with inGroupBy := true }

/-- Allows the method in orderings. -/
def ordering (r : FunctionRule) : FunctionRule :=
  { r with inOrderBy := true }

/-- Gives the method a form of its own. -/
def specially (r : FunctionRule) : FunctionRule :=
  { r with special := true }

/-- The bounds on the number of arguments. -/
def argRange (r : FunctionRule) : ArgRange :=
  ⟨r.minArgs, r.maxArgs⟩

/-- True when a number of arguments is within the bounds. -/
def accepts (r : FunctionRule) (count : Nat) : Bool :=
  r.minArgs ≤ count && r.maxArgs.all (count ≤ ·)

/-- The placeholder of an argument. -/
def placeholder (i : Nat) : String :=
  "\x7b" ++ toString i ++ "\x7d"

/-- Replaces the placeholders from number `i` on, one after the other. -/
def fillFrom (i : Nat) (text : String) : List String → String
  | [] => text
  | arg :: rest => fillFrom (i + 1) (Text.replaceAll (placeholder i) arg text) rest

/-- Writes a call with the given argument texts. -/
def render (r : FunctionRule) (args : List String) : Except Fault String :=
  if r.accepts args.length then
    match r.template with
    | some template => .ok (fillFrom 0 template args)
    | none => .ok (r.function ++ "(" ++ Text.joined ", " args ++ ")")
  else .error (.argumentCount r.function r.argRange args.length)

end FunctionRule

end StreamQuery
