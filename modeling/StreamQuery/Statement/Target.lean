import StreamQuery.Clause.ResultType
import StreamQuery.Edit.KeyPath

/-!
# Targets

What the caller asks of one statement: the name of what it writes to and the options of its text.
-/

namespace StreamQuery

/-- Options that every created statement takes. -/
structure RenderOptions where
  keyPath : KeyPathStyle := .plain
  /-- The record that the statement produces. -/
  resultType : Option ResultType := none
deriving Inhabited

/-- Names a source in a statement. -/
abbrev SourceNaming := Source → String

/-- The target of a created stream or table. -/
structure CreateTarget where
  /-- The name of the object and of its topic. -/
  name : String
  keySchema : Option String := none
  valueSchema : Option String := none
  partitionBy : Option String := none
  cleanupPolicy : Option String := none
  timestamp : Option String := none
  options : RenderOptions := {}
  /-- How sources are named. -/
  naming : SourceNaming := Source.name
deriving Inhabited

/-- Texts that a windowed statement has in the place of the usual ones. -/
structure WindowOverrides where
  /-- The emit mode in the place of `EMIT CHANGES`. -/
  emit : Option String := none
  /-- The source in the place of the query's own. -/
  input : Option String := none
deriving DecidableEq, Inhabited

/-- The target of a windowed statement. -/
structure WindowedTarget where
  name : String
  timeframe : String
  overrides : WindowOverrides := {}
  /-- The step of a hopping window; without it the window is tumbling. -/
  hop : Option Duration := none
  options : RenderOptions := {}
deriving Inhabited

/-- The target of a statement over the query's own hopping window. -/
structure HoppingTarget where
  target : CreateTarget
  overrides : WindowOverrides := {}
deriving Inhabited

/-- The target of an insertion. -/
structure InsertTarget where
  name : String
  naming : SourceNaming := Source.name
deriving Inhabited

/-- Checks that a required text is not blank. -/
def requireText (what text : String) : Except Fault Unit :=
  if Text.allBlank text then .error (.blankTarget what) else .ok ()

end StreamQuery
