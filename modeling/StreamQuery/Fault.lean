import StreamQuery.Text.Ascii

/-!
# Faults

Everything that can go wrong in a compilation, by its cause. Each cause has a stable code: from 1001
on for expressions and clauses, from 2001 on for the shape of a statement, and 3001 for a scope of
another query.
-/

namespace StreamQuery

/-- Inclusive bounds on a number of arguments. -/
structure ArgRange where
  min : Nat
  max : Option Nat
deriving DecidableEq, Inhabited

/-- The bounds as messages show them. -/
def ArgRange.text (r : ArgRange) : String :=
  match r.max with
  | some max => toString r.min ++ "-" ++ toString max
  | none => "at least " ++ toString r.min

/-- The clauses that can come out empty. -/
inductive ClauseKind where
  | select
  | filter
  | groupBy
  | having
deriving DecidableEq, Inhabited

/-- The keyword of a clause. -/
def ClauseKind.keyword : ClauseKind → String
  | .select => "SELECT"
  | .filter => "WHERE"
  | .groupBy => "GROUP BY"
  | .having => "HAVING"

/-- The greatest height of a clause expression. -/
def maxHeight : Nat := 50

/-- The greatest number of nodes of a clause expression. -/
def maxNodes : Nat := 1000

/-- The cause of a failure. -/
inductive Fault where
  /-- A method that the catalog does not know, with a similar name if there is one. -/
  | unsupportedFunction (name : String) (hint : Option String)
  | argumentCount (method : String) (expected : ArgRange) (actual : Nat)
  /-- An argument of a type that the function does not take. -/
  | argumentType (function typeName : String)
  | unsupportedType (typeName : String)
  | recordAsScalar
  | nothingToConvert
  /-- A join condition beyond equalities, conjunctions and columns. -/
  | joinShape
  /-- Records of different sizes compared as composite keys. -/
  | compositeSizes
  | tooDeep
  | tooLarge (nodes : Nat)
  /-- A record in a row filter, outside a composite key comparison. -/
  | recordInFilter
  /-- A record inside a grouping key that is not a member of the key record. -/
  | recordInKey
  | recordInHaving
  | selectorNotColumn
  | recordInColumn
  /-- A column that is not read from a source parameter. -/
  | unqualifiedColumn
  | nestedAggregates
  | emptyClause (clause : ClauseKind)
  | aggregateInFilter
  | aggregateInKeys
  /-- A grouping key that calls a function not allowed there. -/
  | keyFunctionNotAllowed (name : String)
  /-- A member of a key record that calls a function not allowed there. -/
  | keyFunctionUnsupported (name : String)
  | constantKey
  /-- More grouping keys than the settings allow. -/
  | tooManyKeys (limit found : Nat)
  | noKeys
  /-- A count with a selector in a group filter. -/
  | conditionalCount
  | mixedAggregates
  /-- Key members of a named record in another order than the grouping keys. -/
  | keyOrder
  | missingSource
  | tooManySources (count : Nat)
  | missingJoinCondition
  /-- A join operand that is not read from one of the two parameters. -/
  | unqualifiedJoinColumn (name : String)
  | withinRequired
  | missingPrimaryAlias
  | hoppingNeedsGroupBy
  | noHoppingWindow
  | blankTarget (what : String)
  | malformedExtra (key : String)
  | foreignScope
deriving DecidableEq, Inhabited

namespace Fault

/-- The stable code of a cause. -/
def code : Fault → String
  | .unsupportedFunction _ _ => "KSQL-1001"
  | .argumentCount _ _ _ => "KSQL-1002"
  | .argumentType _ _ => "KSQL-1003"
  | .unsupportedType _ => "KSQL-1004"
  | .recordAsScalar | .nothingToConvert | .joinShape | .compositeSizes | .tooDeep | .tooLarge _
  | .recordInFilter | .recordInKey | .recordInHaving | .selectorNotColumn | .recordInColumn
  | .unqualifiedColumn => "KSQL-1005"
  | .nestedAggregates | .emptyClause _ | .aggregateInFilter | .aggregateInKeys
  | .keyFunctionNotAllowed _ | .keyFunctionUnsupported _ | .constantKey | .tooManyKeys _ _ | .noKeys
  | .conditionalCount | .mixedAggregates | .keyOrder => "KSQL-1006"
  | .missingSource => "KSQL-2001"
  | .tooManySources _ => "KSQL-2002"
  | .missingJoinCondition => "KSQL-2003"
  | .unqualifiedJoinColumn _ => "KSQL-2004"
  | .withinRequired => "KSQL-2005"
  | .hoppingNeedsGroupBy | .noHoppingWindow => "KSQL-2006"
  | .blankTarget _ => "KSQL-2007"
  | .malformedExtra _ => "KSQL-2009"
  | .missingPrimaryAlias => "KSQL-2010"
  | .foreignScope => "KSQL-3001"

/-- The advice that both size limits end with. -/
def simplifyAdvice : String :=
  "Consider simplifying the expression or breaking it into multiple operations."

/-- The message of a cause. A foreign scope has none, since its wording would name internal numbers,
and a malformed side value ends where the reason would follow. -/
def message : Fault → Option String
  | .unsupportedFunction name hint => some <|
      "Function '" ++ name ++ "' is not supported." ++
        (match hint with
        | some other => " Did you mean '" ++ other ++ "'?"
        | none => "")
  | .argumentCount method expected actual => some <|
      "Method '" ++ method ++ "' expects " ++ expected.text ++ " arguments, but got " ++
        toString actual
  | .argumentType function typeName => some <|
      "Function '" ++ function ++ "' does not support argument type " ++ typeName
  | .unsupportedType typeName => some <| "Type '" ++ typeName ++ "' is not supported."
  | .recordAsScalar => some "Record construction cannot be used as a scalar expression"
  | .nothingToConvert => some "ToString requires a value to convert"
  | .joinShape => some "JOIN condition supports only equality, AND and source columns"
  | .compositeSizes => some "Composite key expressions must have the same number of properties"
  | .tooDeep => some <|
      "Expression depth exceeds maximum allowed depth of " ++ toString maxHeight ++ ". " ++
        simplifyAdvice
  | .tooLarge nodes => some <|
      "Expression complexity exceeds maximum allowed nodes of " ++ toString maxNodes ++
        ". Current expression has " ++ toString nodes ++ " nodes. " ++ simplifyAdvice
  | .recordInFilter =>
    some "Record construction is only supported in composite key comparisons"
  | .recordInKey => some "Nested record keys must be members of the key record"
  | .recordInHaving => some "Record construction is not supported in HAVING"
  | .selectorNotColumn => some "Cannot extract column name from lambda"
  | .recordInColumn => some "Nested record construction is not supported in SELECT"
  | .unqualifiedColumn =>
    some "Unqualified column access is not allowed. Use source parameter properties."
  | .nestedAggregates => some "Nested aggregate functions are not supported"
  | .emptyClause clause => some <|
      clause.keyword ++ " builder produced empty result. " ++
        "This indicates an issue with the expression processing logic."
  | .aggregateInFilter =>
    some "Aggregate functions are not allowed in WHERE clause. Use HAVING clause instead."
  | .aggregateInKeys => some "Aggregate functions are not allowed in GROUP BY clause"
  | .keyFunctionNotAllowed name => some <|
      "Function '" ++ name ++ "' is not allowed in GROUP BY clause"
  | .keyFunctionUnsupported name => some <| "Unsupported GROUP BY function: " ++ name
  | .constantKey => some "Constant expression is not supported in GROUP BY"
  | .tooManyKeys limit found => some <|
      "GROUP BY supports maximum " ++ toString limit ++ " keys for optimal performance. Found " ++
        toString found ++ " keys. Consider using composite keys or data denormalization."
  | .noKeys => some "Unable to extract GROUP BY keys from expression"
  | .conditionalCount => some <|
      "Conditional Count is not supported in KSQL HAVING clause. " ++ "Use WHERE clause instead."
  | .mixedAggregates => some <|
      "SELECT clause cannot mix aggregate functions with non-aggregate columns " ++
        "without GROUP BY"
  | .keyOrder => some <|
      "The order of GroupBy keys does not match the output DTO definition. " ++
        "Please ensure they are the same order."
  | .missingSource => some "Source types are required"
  | .tooManySources count => some <|
      "Only up to 2 tables are supported in JOIN (got " ++ toString count ++ ")"
  | .missingJoinCondition => some "Join condition required for two table join"
  | .unqualifiedJoinColumn name => some <|
      "Unqualified column access in JOIN condition is not allowed: " ++ name
  | .withinRequired =>
    some "Stream-Stream JOIN requires explicit Within(...) when default is disabled."
  | .missingPrimaryAlias => some "Primary source alias missing for join condition."
  | .hoppingNeedsGroupBy => some "Hopping window requires GroupBy()."
  | .noHoppingWindow => some "Hopping window not specified on model"
  | .blankTarget what => some <| what ++ " required"
  | .malformedExtra key => some <| "Extras entry '" ++ key ++ "' is malformed: "
  | .foreignScope => none

end Fault

/-- A computation in two steps that succeeds has both steps succeed. -/
theorem ok_of_bind {α β : Type} {x : Except Fault α} {f : α → Except Fault β} {b : β}
    (h : x >>= f = .ok b) : ∃ a, x = .ok a ∧ f a = .ok b := by
  cases x with
  | error fault => cases h
  | ok a => exact ⟨a, rfl, h⟩

end StreamQuery
