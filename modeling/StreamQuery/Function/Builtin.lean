import StreamQuery.Function.Rule

/-!
# The built-in functions

The table of methods that every catalog starts from. Their families give the order of the printed
listing, and the aggregate family those that turn a query into a table.
-/

namespace StreamQuery

/-- Families of functions, in listing order. -/
inductive FunctionFamily where
  | string
  | math
  | date
  | aggregate
  | array
  | json
  | cast
  | conditional
  /-- Parts of a URL. -/
  | url
  | geo
  | crypto
  /-- Windows and row metadata. -/
  | window
deriving DecidableEq, Inhabited

namespace FunctionFamily

/-- All families, in listing order. -/
def all : List FunctionFamily :=
  [.string, .math, .date, .aggregate, .array, .json, .cast, .conditional, .url, .geo, .crypto,
    .window]

/-- The heading of a family in the listing. -/
def label : FunctionFamily → String
  | .string => "String"
  | .math => "Math"
  | .date => "Date"
  | .aggregate => "Aggregate"
  | .array => "Array"
  | .json => "JSON"
  | .cast => "Cast"
  | .conditional => "Conditional"
  | .url => "URL"
  | .geo => "GEO"
  | .crypto => "Crypto"
  | .window => "Window"

/-- The methods of a family, in listing order. -/
def methods : FunctionFamily → List String
  | .string => ["ToUpper", "ToLower", "Substring", "Length", "Trim", "Replace", "Contains",
      "StartsWith", "EndsWith", "Split", "Concat", "IndexOf", "PadLeft", "PadRight"]
  | .math => ["Abs", "Round", "Floor", "Ceiling", "Sqrt", "Power", "Sign", "Sin", "Cos", "Tan",
      "Log", "Log10", "Exp"]
  | .date => ["AddDays", "AddHours", "AddMinutes", "AddSeconds", "AddMilliseconds", "Year", "Month",
      "Day", "Hour", "Minute", "Second", "DayOfWeek", "DayOfYear", "WeekOfYear"]
  | .aggregate => ["Sum", "Count", "Max", "Min", "Average", "LatestByOffset", "EarliestByOffset",
      "CollectList", "CollectSet", "CountDistinct", "Histogram", "TopK", "TopKDistinct"]
  | .array => ["ArrayLength", "ArrayContains", "ArraySlice", "ArrayJoin", "ArrayDistinct",
      "ArrayExcept", "ArrayIntersect", "ArrayUnion", "ArraySort", "ArrayMax", "ArrayMin"]
  | .json => ["JsonExtractString", "JsonArrayLength", "JsonKeys", "JsonArrayContains", "JsonConcat",
      "JsonRecords"]
  | .cast => ["ToString", "Parse", "Convert", "ToInt", "ToLong", "ToDouble", "ToDecimal"]
  | .conditional => ["Case", "Coalesce", "IfNull", "NullIf"]
  | .url => ["UrlExtractHost", "UrlExtractPath", "UrlExtractQuery", "UrlExtractProtocol"]
  | .geo => ["GeoDistance", "AsGeoJson"]
  | .crypto => ["Md5", "Sha1", "Sha256"]
  | .window => ["WindowStart", "RowTime", "RowKey"]

end FunctionFamily

namespace FunctionRule

/-- A part of a date, cut out of a timestamp. -/
def datePart (part : String) : FunctionRule :=
  templated 1 ("EXTRACT(" ++ part ++ " FROM CAST(\x7b0\x7d AS TIMESTAMP))")

/-- A shift of a date by a number of units, which is the second argument. -/
def dateShift (unit : String) : FunctionRule :=
  templated 2 ("DATEADD('" ++ unit ++ "', \x7b1\x7d, \x7b0\x7d)")

/-- A conversion to a fixed type. -/
def castTo (target : String) : FunctionRule :=
  templated 1 ("CAST(\x7b0\x7d AS " ++ target ++ ")")

/-- The last characters of a text; the start is kept at one. -/
def rightmost : FunctionRule :=
  templated 2 ("SUBSTRING(\x7b0\x7d, CASE WHEN LEN(\x7b0\x7d) - \x7b1\x7d + 1 < 1 THEN 1 " ++
    "ELSE LEN(\x7b0\x7d) - \x7b1\x7d + 1 END, \x7b1\x7d)")

/-- Text functions. -/
def stringRules : List (String × FunctionRule) := [
  ("ToUpper", (exact "UPPER" 1).grouping.ordering),
  ("ToLower", (exact "LOWER" 1).grouping.ordering),
  ("Upper", (exact "UPPER" 1).grouping.ordering),
  ("Lower", (exact "LOWER" 1).grouping.ordering),
  ("Substring", (between "SUBSTRING" 2 (some 3)).grouping),
  ("Length", exact "LEN" 1),
  ("Trim", exact "TRIM" 1),
  ("Replace", exact "REPLACE" 3),
  ("Contains", templated 2 "INSTR(\x7b0\x7d, \x7b1\x7d) > 0"),
  ("StartsWith", exact "STARTS_WITH" 2),
  ("EndsWith", exact "ENDS_WITH" 2),
  ("Split", exact "SPLIT" 2),
  ("Concat", between "CONCAT" 2 none),
  ("IndexOf", exact "INSTR" 2),
  ("PadLeft", between "LPAD" 2 (some 3)),
  ("PadRight", between "RPAD" 2 (some 3)),
  ("Left", (templated 2 "SUBSTRING(\x7b0\x7d, 1, \x7b1\x7d)").grouping),
  ("Right", rightmost.grouping)]

/-- Numeric functions. -/
def mathRules : List (String × FunctionRule) := [
  ("Abs", (exact "ABS" 1).ordering),
  ("Round", (between "ROUND" 1 (some 2)).grouping),
  ("Floor", (exact "FLOOR" 1).grouping),
  ("Ceiling", (exact "CEIL" 1).grouping),
  ("Sqrt", exact "SQRT" 1),
  ("Power", exact "POWER" 2),
  ("Sign", exact "SIGN" 1),
  ("Sin", exact "SIN" 1),
  ("Cos", exact "COS" 1),
  ("Tan", exact "TAN" 1),
  ("Log", between "LOG" 1 (some 2)),
  ("Log10", exact "LOG10" 1),
  ("Exp", exact "EXP" 1)]

/-- Functions of date and time. -/
def dateRules : List (String × FunctionRule) := [
  ("Year", (datePart "YEAR").grouping.ordering),
  ("Month", (datePart "MONTH").grouping.ordering),
  ("Day", (datePart "DAY").grouping.ordering),
  ("Hour", (datePart "HOUR").grouping),
  ("Minute", (datePart "MINUTE").grouping),
  ("Second", (datePart "SECOND").grouping),
  ("AddDays", dateShift "day"),
  ("AddHours", dateShift "hour"),
  ("AddMinutes", dateShift "minute"),
  ("AddSeconds", dateShift "second"),
  ("AddMilliseconds", dateShift "millisecond"),
  ("DayOfWeek", (exact "DAYOFWEEK" 1).grouping),
  ("DayOfYear", (exact "DAYOFYEAR" 1).grouping),
  ("WeekOfYear", (templated 1
    "CAST(FORMAT_TIMESTAMP(CAST(\x7b0\x7d AS TIMESTAMP), 'w', 'UTC') AS INT)").grouping)]

/-- Aggregates. -/
def aggregateRules : List (String × FunctionRule) := [
  ("Sum", exact "SUM" 1),
  ("Count", (between "COUNT" 0 (some 1)).specially),
  ("Max", exact "MAX" 1),
  ("Min", exact "MIN" 1),
  ("Average", exact "AVG" 1),
  ("LatestByOffset", exact "LATEST_BY_OFFSET" 1),
  ("EarliestByOffset", exact "EARLIEST_BY_OFFSET" 1),
  ("CollectList", exact "COLLECT_LIST" 1),
  ("CollectSet", exact "COLLECT_SET" 1),
  ("CountDistinct", exact "COUNT_DISTINCT" 1),
  ("Histogram", exact "HISTOGRAM" 1),
  ("TopK", exact "TOPK" 2),
  ("TopKDistinct", exact "TOPKDISTINCT" 2)]

/-- Array functions. -/
def arrayRules : List (String × FunctionRule) := [
  ("ArrayLength", exact "ARRAY_LENGTH" 1),
  ("ArrayContains", exact "ARRAY_CONTAINS" 2),
  ("ArraySlice", exact "ARRAY_SLICE" 3),
  ("ArrayJoin", exact "ARRAY_JOIN" 2),
  ("ArrayDistinct", exact "ARRAY_DISTINCT" 1),
  ("ArrayExcept", exact "ARRAY_EXCEPT" 2),
  ("ArrayIntersect", exact "ARRAY_INTERSECT" 2),
  ("ArrayUnion", exact "ARRAY_UNION" 2),
  ("ArraySort", exact "ARRAY_SORT" 1),
  ("ArrayMax", exact "ARRAY_MAX" 1),
  ("ArrayMin", exact "ARRAY_MIN" 1)]

/-- Functions on JSON texts. -/
def jsonRules : List (String × FunctionRule) := [
  ("JsonExtractString", exact "JSON_EXTRACT_STRING" 2),
  ("JsonArrayLength", exact "JSON_ARRAY_LENGTH" 1),
  ("JsonKeys", exact "JSON_KEYS" 1),
  ("JsonArrayContains", exact "JSON_ARRAY_CONTAINS" 2),
  ("JsonConcat", between "JSON_CONCAT" 2 none),
  ("JsonRecords", exact "JSON_RECORDS" 1)]

/-- Conversions and choices. -/
def castRules : List (String × FunctionRule) := [
  ("ToString", (castTo "VARCHAR").specially.grouping),
  ("Parse", (exact "PARSE_\x7bTYPE\x7d" 1).specially),
  ("Convert", (exact "CAST(\x7b0\x7d AS \x7bTYPE\x7d)" 1).specially),
  ("ToInt", castTo "INTEGER"),
  ("ToLong", castTo "BIGINT"),
  ("ToDouble", castTo "DOUBLE"),
  ("ToDecimal", castTo "DECIMAL"),
  ("Case", (between "CASE" 2 none).specially),
  ("Coalesce", between "COALESCE" 1 none),
  ("IfNull", exact "IFNULL" 2),
  ("NullIf", exact "NULLIF" 2)]

/-- Parts of a URL, geography, hashes, windows and row metadata. -/
def otherRules : List (String × FunctionRule) := [
  ("UrlExtractHost", exact "URL_EXTRACT_HOST" 1),
  ("UrlExtractPath", exact "URL_EXTRACT_PATH" 1),
  ("UrlExtractQuery", exact "URL_EXTRACT_QUERY" 1),
  ("UrlExtractProtocol", exact "URL_EXTRACT_PROTOCOL" 1),
  ("GeoDistance", exact "GEO_DISTANCE" 4),
  ("AsGeoJson", exact "AS_GEOJSON" 2),
  ("Md5", exact "MD5" 1),
  ("Sha1", exact "SHA1" 1),
  ("Sha256", exact "SHA256" 1),
  ("WindowStart", templated 0 "WINDOWSTART"),
  ("RowTime", (exact "ROWTIME" 0).ordering),
  ("RowKey", exact "ROWKEY" 0)]

/-- All built-in rules. -/
def builtinRules : List (String × FunctionRule) :=
  stringRules ++ mathRules ++ dateRules ++ aggregateRules ++ arrayRules ++ jsonRules ++ castRules ++
    otherRules

end FunctionRule

end StreamQuery
