import StreamQuery.Function.Builtin
import StreamQuery.Hint
import StreamQuery.Settings.Basic

/-!
# The function catalog

A catalog maps method names to rules. It is a value: a catalog with further rules is another
catalog. Whether a method aggregates does not depend on the catalog, but on the aggregate family and
on a list of dialect spellings.
-/

namespace StreamQuery

/-- A table of function rules by method name. -/
structure Catalog where
  rules : NameMap FunctionRule
deriving DecidableEq, Inhabited

namespace Catalog

/-- The catalog without rules. -/
def empty : Catalog := ⟨NameMap.empty⟩

/-- Adds a rule, or replaces the one of the same method. -/
def add (c : Catalog) (method : String) (rule : FunctionRule) : Catalog :=
  ⟨c.rules.insert method rule⟩

/-- The built-in catalog. -/
def builtin : Catalog := ⟨NameMap.ofList FunctionRule.builtinRules⟩

/-- The rule of a method; names are matched exactly. -/
def get? (c : Catalog) (method : String) : Option FunctionRule :=
  c.rules.get? method

/-- The methods whose rule is a form of its own. -/
def specialMethods (c : Catalog) : List String :=
  (c.rules.entries.filter fun entry => entry.2.special).map (·.1)

/-- The methods outside every family, in name order. -/
def uncategorized (c : Catalog) : List String :=
  c.rules.names.filter fun name =>
    !FunctionFamily.all.any fun family => family.methods.contains name

/-- The hint for an unknown method. -/
def hint? (c : Catalog) (method : String) : Option String :=
  Hint.nearest? method c.rules.names Hint.maxDistance

/-- One line of the listing; a method without rule has none. -/
def listingLine (c : Catalog) (name : String) : String :=
  match c.get? name with
  | some rule =>
    "• " ++ name ++ " → " ++ rule.function ++ " (args: " ++ toString rule.minArgs ++ "-" ++
      (match rule.maxArgs with
      | some max => toString max
      | none => "*") ++ ")\n"
  | none => ""

/-- One section of the listing. -/
def listingSection (c : Catalog) (label : String) (methods : List String) : String :=
  "\n[" ++ label ++ "] (" ++ toString methods.length ++ " functions)\n" ++
    String.join (methods.map c.listingLine)

/-- The listing of all functions by family, with a section for the methods of no family. -/
def listing (c : Catalog) : String :=
  "KSQL Function Registry - Supported Functions:\n" ++
    String.ofList (List.replicate 51 '=') ++ "\n" ++
    String.join (FunctionFamily.all.map fun family =>
      c.listingSection family.label family.methods) ++
    (if c.uncategorized.isEmpty then "" else c.listingSection "Custom" c.uncategorized)

end Catalog

namespace Function

/-- The methods of the aggregate family. -/
def inAggregateFamily (method : String) : Bool :=
  FunctionFamily.aggregate.methods.contains method

/-- Aggregates by their spelling in capitals and without underscores. -/
def aggregateSpellings : List String :=
  ["SUM", "COUNT", "MAX", "MIN", "AVG", "AVERAGE", "LATESTBYOFFSET", "EARLIESTBYOFFSET",
    "COLLECTLIST", "COLLECTSET", "COUNTDISTINCT", "HISTOGRAM", "TOPK", "TOPKDISTINCT"]

/-- True for a method that aggregates, by its family or by its spelling. -/
def isAggregate (method : String) : Bool :=
  inAggregateFamily method ||
    aggregateSpellings.contains (Text.upper (String.ofList (method.toList.filter (· != '_'))))

/-- The dialect type that the name of a method suggests, for conversions without a rule. -/
def suggestedType (method : String) (decimal : DecimalSettings) : String :=
  let name := Text.upper method
  if name == "SUM" || name == "AVG" || name == "TODOUBLE" then "DOUBLE"
  else if name == "COUNT" || name == "TOLONG" || name == "TOINT64" then "BIGINT"
  else if name == "MAX" || name == "MIN" then "ANY"
  else if name == "TOPK" then "ARRAY"
  else if name == "HISTOGRAM" then "MAP"
  else if name == "TOINT" || name == "TOINT32" then "INTEGER"
  else if name == "TODECIMAL" then decimal.size.sqlType
  else if name == "TOSTRING" then "VARCHAR"
  else if name == "TOBOOL" || name == "TOBOOLEAN" then "BOOLEAN"
  else "UNKNOWN"

/-- What holds of the decimal type and of the other type names holds of a suggested type. -/
theorem suggestedType_induction {P : String → Prop} (method : String) (decimal : DecimalSettings)
    (hdecimal : P decimal.size.sqlType)
    (hnames : ∀ name ∈ ["DOUBLE", "BIGINT", "ANY", "ARRAY", "MAP", "INTEGER", "VARCHAR", "BOOLEAN",
      "UNKNOWN"], P name) : P (suggestedType method decimal) := by
  have hchoice : ∀ {p : Bool} {a b : String}, P a → P b → P (if p then a else b) := by
    intro p a b ha hb
    cases p
    · exact hb
    · exact ha
  unfold suggestedType
  dsimp only
  iterate 6 refine hchoice (hnames _ (by decide)) ?_
  refine hchoice hdecimal ?_
  iterate 2 refine hchoice (hnames _ (by decide)) ?_
  exact hnames _ (by decide)

end Function

end StreamQuery
