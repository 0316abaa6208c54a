import StreamQuery.Hub.Outline

/-!
# Clauses

Each clause is a lambda; an alias table says under which alias the columns of its parameters are
written. Every clause has the same limits on its size, and none may come out blank.
-/

namespace StreamQuery

/-- The alias of the primary source. -/
def primaryAlias : String := "o"

/-- The alias of the joined source. -/
def joinAlias : String := "i"

/-- Aliases by parameter name, in parameter order. -/
structure AliasTable where
  /-- Parameter names with their aliases. -/
  entries : List (String × String) := []
deriving DecidableEq, Inhabited

namespace AliasTable

/-- The alias of the source at a position; the primary source has one only if `aliased` says so. -/
def sourceAlias (aliased : Bool) : Nat → Option String
  | 0 => if aliased then some primaryAlias else none
  | 1 => some joinAlias
  | n => some ("s" ++ toString n)

/-- The table of a projection or a grouping key: parameters stand for the sources in order. -/
def forSources (params : List Param) (count : Nat) (aliased : Bool) : AliasTable :=
  ⟨((params.take count).zipIdx).filterMap fun (p, i) =>
    (sourceAlias aliased i).map fun aliasName => (p.name, aliasName)⟩

/-- The table of a row filter: the second parameter always has an alias. -/
def forFilter (params : List Param) (aliased : Bool) : AliasTable :=
  ⟨((params.take 2).zipIdx).filterMap fun (p, i) =>
    (sourceAlias aliased i).map fun aliasName => (p.name, aliasName)⟩

/-- The alias of a parameter. -/
def alias? (t : AliasTable) (param : String) : Option String :=
  (t.entries.find? fun entry => entry.1 == param).map (·.2)

/-- The first alias in parameter order. -/
def first? (t : AliasTable) : Option String :=
  t.entries.head?.map (·.2)

/-- True when some parameter has the alias. -/
def hasAlias (t : AliasTable) (aliasName : String) : Bool :=
  t.entries.any fun entry => entry.2 == aliasName

/-- The alias of the parameter that a member is read from. -/
def ofMember? (t : AliasTable) (m : Member) : Option String :=
  m.root?.bind fun p => t.alias? p.name

end AliasTable

/-- A column behind its alias, if it has one. -/
def qualified (aliasName : Option String) (column : String) : String :=
  match aliasName with
  | some a => a ++ "." ++ column
  | none => column

/-- Checks the height and the size of an expression. -/
def Expr.checkSize (e : Expr) : Except Fault Unit :=
  if maxHeight < e.height then .error .tooDeep
  else if maxNodes < e.nodes.length then .error (.tooLarge e.nodes.length)
  else .ok ()

/-- True for an aggregate call with an aggregate somewhere in its receiver or its arguments. -/
def Expr.nestsAggregate : Expr → Bool
  | .call method receiver args =>
    Function.isAggregate method.name && (receiver.toList ++ args).any Expr.hasAggregate
  | _ => false

/-- Checks that no aggregate stands inside another. -/
def Expr.checkNesting (e : Expr) : Except Fault Unit :=
  if e.anyNode Expr.nestsAggregate then .error .nestedAggregates else .ok ()

/-- A clause body, unless it is blank. -/
def nonEmpty (clause : ClauseKind) (body : String) : Except Fault String :=
  if Text.allBlank body then .error (.emptyClause clause) else .ok body

/-- A clause body that is not blank is the text that was written. -/
theorem eq_of_nonEmpty {clause : ClauseKind} {text body : String}
    (h : nonEmpty clause text = .ok body) : text = body := by
  unfold nonEmpty at h
  split at h
  · cases h
  · exact Except.ok.inj h

end StreamQuery
