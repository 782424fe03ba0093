/-
# Timestamps, documents and entries as JSON records

A record lists its fields in a fixed order when it is written, and finds them by name when it is read.
-/
import DocMesh.Document.Basic
import DocMesh.Json.Reader

namespace DocMesh

/-! ## Timestamps -/

namespace Timestamp

/-- The names of the fields, in order. -/
def fieldNames : List String := ["physical_time", "logical_counter", "node_id"]

/-- The timestamp as a record. -/
def record (t : Timestamp) : Json :=
  .object [("physical_time", .ofInt t.physical.toInt), ("logical_counter", .ofInt t.counter.toInt),
    ("node_id", t.node)]

/-- The timestamp of a record. -/
def ofRaw? (r : Raw) : Option Timestamp := do
  match ← r.fields? fieldNames with
  | [physical, counter, node] =>
    some ⟨.ofInt (← (← physical).int? Int64.minValue.toInt Int64.maxValue.toInt),
      .ofInt (← (← counter).int? Int32.minValue.toInt Int32.maxValue.toInt), ← (← node).text?⟩
  | _ => none

end Timestamp

/-! ## Operations -/

/-- The operation whose name is given. -/
def Operation.ofRaw? (r : Raw) : Option Operation := r.caseName?.bind ofName?

/-! ## Documents -/

namespace Document

/-- The names of the fields, in order. -/
def fieldNames : List String := ["collection", "key", "content", "updated_at", "is_deleted"]

/-- The document as a record. -/
def record (d : Document) : Json :=
  .object [("collection", d.collection), ("key", d.key), ("content", d.content),
    ("updated_at", d.updatedAt.record), ("is_deleted", d.deleted)]

/-- The document of a record. The content stands one level deep in it. -/
def ofRaw? (r : Raw) : Option Document := do
  match ← r.fields? fieldNames with
  | [collection, key, content, updatedAt, deleted] =>
    some ⟨← (← collection).text?, ← (← key).text?, ← (← content).eval? (Json.nestingLimit - 1),
      ← Timestamp.ofRaw? (← updatedAt), ← (← deleted).bool?⟩
  | _ => none

end Document

/-! ## Entries -/

namespace Entry

/-- The names of the fields, in order. -/
def fieldNames : List String := ["collection", "key", "operation", "payload", "timestamp"]

/-- The entry as a record. A missing payload is written as null. -/
def record (e : Entry) : Json :=
  .object [("collection", e.collection), ("key", e.key), ("operation", e.operation.name),
    ("payload", e.payload.getD .null), ("timestamp", e.timestamp.record)]

/-- The payload of a record: null and a missing field both mean that there is none. -/
def payloadOfRaw? : Option Raw → Option (Option Json)
  | none | some .null => some none
  | some r => (r.eval? (Json.nestingLimit - 1)).map some

/-- The entry of a record. -/
def ofRaw? (r : Raw) : Option Entry := do
  match ← r.fields? fieldNames with
  | [collection, key, operation, payload, timestamp] =>
    some ⟨← (← collection).text?, ← (← key).text?, ← Operation.ofRaw? (← operation),
      ← payloadOfRaw? payload, ← Timestamp.ofRaw? (← timestamp)⟩
  | _ => none

end Entry

end DocMesh
