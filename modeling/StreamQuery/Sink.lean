import StreamQuery.Extras

/-!
# Sinks

The properties of the topic that a statement writes to, in a fixed order. Options are trimmed, and a
blank option counts as absent.
-/

namespace StreamQuery

/-- What a statement creates. -/
inductive ObjectKind where
  | stream
  | table
deriving DecidableEq, Inhabited

/-- The keyword of an object kind. -/
def ObjectKind.keyword : ObjectKind → String
  | .stream => "STREAM"
  | .table => "TABLE"

/-- The sink options of a query. -/
structure SinkOptions where
  partitions : Option Nat := none
  replicas : Option Nat := none
  /-- The retention in milliseconds. -/
  retentionMs : Option Nat := none
  cleanupPolicy : Option String := none
  valueSchema : Option String := none
deriving DecidableEq, Inhabited

namespace SinkOptions

/-- The options among the side values of a query. -/
def ofExtras (x : Extras) : SinkOptions where
  partitions := x.partitions?
  replicas := x.replicas?
  retentionMs := x.retentionMs?
  cleanupPolicy := x.cleanupPolicy?
  valueSchema := x.valueSchema?

/-- One partition and one replica where nothing is said. -/
def withDefaultSizing (s : SinkOptions) : SinkOptions :=
  { s with partitions := s.partitions.or (some 1), replicas := s.replicas.or (some 1) }

end SinkOptions

/-- The properties of a sink. -/
structure SinkProperties where
  topic : String
  cleanupPolicy : Option String := none
  hasKey : Bool := false
  keySchema : Option String := none
  valueSchema : Option String := none
  timestamp : Option String := none
  partitions : Option Nat := none
  replicas : Option Nat := none
  retentionMs : Option Nat := none
deriving DecidableEq, Inhabited

namespace SinkProperties

/-- Sets whether there is a key. -/
def withKey (p : SinkProperties) (hasKey : Bool) : SinkProperties :=
  { p with hasKey }

/-- Sets the key schema. -/
def withKeySchema (p : SinkProperties) (name : Option String) : SinkProperties :=
  { p with keySchema := name.bind Text.nonBlank }

/-- Sets the value schema. -/
def withValueSchema (p : SinkProperties) (name : Option String) : SinkProperties :=
  { p with valueSchema := name.bind Text.nonBlank }

/-- Sets the timestamp column. -/
def withTimestamp (p : SinkProperties) (column : Option String) : SinkProperties :=
  { p with timestamp := column.bind Text.nonBlank }

/-- Sets the cleanup policy. -/
def withCleanupPolicy (p : SinkProperties) (policy : Option String) : SinkProperties :=
  { p with cleanupPolicy := policy.bind Text.nonBlank }

/-- Sets the retention, if it is positive. -/
def withRetention (p : SinkProperties) (ms : Option Nat) : SinkProperties :=
  { p with retentionMs := ms.filter (0 < ·) }

/-- Takes over sink options: sizes if they are positive, and texts where none has been set. -/
def withSink (p : SinkProperties) (s : SinkOptions) : SinkProperties :=
  { p with
    cleanupPolicy := p.cleanupPolicy.or s.cleanupPolicy
    valueSchema := p.valueSchema.or s.valueSchema
    partitions := s.partitions.filter (0 < ·)
    replicas := s.replicas.filter (0 < ·) }

/-- A property with a quoted value. -/
def quotedPart (name value : String) : String :=
  name ++ "='" ++ value ++ "'"

/-- A property with a number. -/
def numberPart (name : String) (value : Nat) : String :=
  name ++ "=" ++ toString value

/-- The properties, in the order they are written in. -/
def parts (p : SinkProperties) : List String :=
  [quotedPart "KAFKA_TOPIC" p.topic] ++
    p.cleanupPolicy.toList.map (quotedPart "CLEANUP_POLICY") ++
    (if p.hasKey then [quotedPart "KEY_FORMAT" "AVRO"] else []) ++
    [quotedPart "VALUE_FORMAT" "AVRO"] ++
    (if p.hasKey then p.keySchema.toList.map (quotedPart "KEY_AVRO_SCHEMA_FULL_NAME") else []) ++
    p.valueSchema.toList.map (quotedPart "VALUE_AVRO_SCHEMA_FULL_NAME") ++
    p.timestamp.toList.map (quotedPart "TIMESTAMP") ++
    p.partitions.toList.map (numberPart "PARTITIONS") ++
    p.replicas.toList.map (numberPart "REPLICAS") ++
    p.retentionMs.toList.map (numberPart "RETENTION_MS")

/-- The text of the WITH clause. -/
def sql (p : SinkProperties) : String :=
  "WITH (" ++ Text.joined ", " p.parts ++ ")"

end SinkProperties

end StreamQuery
