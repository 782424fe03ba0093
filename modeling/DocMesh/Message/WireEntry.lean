/-
# Entries in messages

In a message an entry carries its payload as JSON text, and its operation by name. What a peer sends as
an entry need not be one. A page is the longest run of entries at the front of a log that fits a number of
bytes; it never ends between two entries with the same timestamp.
-/
import DocMesh.Cbor.Record
import DocMesh.Document.Basic
import DocMesh.Json.Printer
import DocMesh.Json.Reader
import DocMesh.ProtocolError

namespace DocMesh

open Cbor (Item)

/-! ## Timestamps -/

namespace Timestamp

/-- The timestamp as an item. -/
def item (t : Timestamp) : Item :=
  .record [("physical_time", .integer t.physical.toInt), ("logical_counter", .integer t.counter.toInt),
    ("node_id", .ofString t.node)]

/-- The timestamp of an item. -/
def ofItem? (level : Nat) (i : Item) : Option Timestamp := do
  match ← i.fields? level ["physical_time", "logical_counter", "node_id"] with
  | [physical, counter, node] =>
    some ⟨.ofInt (← (← physical).intBetween? Int64.minValue.toInt Int64.maxValue.toInt),
      .ofInt (← (← counter).intBetween? Int32.minValue.toInt Int32.maxValue.toInt), ← (← node).text?⟩
  | _ => none

end Timestamp

/-! ## Entries in messages -/

/-- An entry as a message carries it. -/
structure WireEntry where
  collection : String
  key : String
  /-- The name of the operation. -/
  operation : String
  /-- The JSON text of the payload. -/
  payload : Option String
  timestamp : Timestamp
  deriving DecidableEq, Inhabited

namespace WireEntry

/-- The entry as a message carries it. -/
def ofEntry (e : Entry) : WireEntry :=
  ⟨e.collection, e.key, e.operation.name, e.payload.map Json.text, e.timestamp⟩

/-- The payload that is carried. -/
def content (w : WireEntry) : Except ProtocolError (Option Json) :=
  match w.payload with
  | none => .ok none
  | some text =>
    match Json.parse? text with
    | some v => .ok (some v)
    | none => .error (.malformedEntry (w.collection ++ "/" ++ w.key ++ ": not a JSON text"))

/-- The entry that is carried. -/
def toEntry (w : WireEntry) : Except ProtocolError Entry :=
  match Operation.ofName? w.operation with
  | none => .error (.malformedEntry (Operation.unknownName w.operation))
  | some operation => w.content.map fun payload => ⟨w.collection, w.key, operation, payload, w.timestamp⟩

/-- The entries that are carried; an error if one of them is none. -/
def toEntries : List WireEntry → Except ProtocolError (List Entry)
  | [] => .ok []
  | w :: ws =>
    match w.toEntry with
    | .error e => .error e
    | .ok entry => (toEntries ws).map (entry :: ·)

/-! ## Written form -/

/-- The entry as an item. -/
def item (w : WireEntry) : Item :=
  .record [("collection", .ofString w.collection), ("key", .ofString w.key),
    ("operation", .ofString w.operation), ("json_data", .ofOption .ofString w.payload),
    ("timestamp", w.timestamp.item)]

/-- The entry of an item. A missing payload is no payload. -/
def ofItem? (level : Nat) (i : Item) : Option WireEntry := do
  match ← i.fields? level ["collection", "key", "operation", "json_data", "timestamp"] with
  | [collection, key, operation, payload, timestamp] =>
    some ⟨← (← collection).text?, ← (← key).text?, ← (← operation).text?,
      ← (payload.getD .null).optional? Item.text?, ← Timestamp.ofItem? (level + 1) (← timestamp)⟩
  | _ => none

/-- The number of bytes of the written form. -/
def size (w : WireEntry) : Nat := w.item.encode.length

end WireEntry

/-! ## Pages -/

namespace Entry

/-- How many bytes the entry takes in a message. -/
def wireSize (e : Entry) : Nat := (WireEntry.ofEntry e).size

/-- The entries that go on a page behind the ones already there, which take `used` bytes and end at `last`. -/
def pageAfter (budget used : Nat) (last : Timestamp) : List Entry → List Entry
  | [] => []
  | e :: es =>
    let used := used + e.wireSize
    if e.timestamp = last ∨ used ≤ budget then e :: pageAfter budget used e.timestamp es else []

/-- The first page of a list of entries, of at most `budget` bytes as far as possible. It is empty only if the list is. -/
def page (budget : Nat) : List Entry → List Entry
  | [] => []
  | e :: es => e :: pageAfter budget e.wireSize e.timestamp es

end Entry

end DocMesh
