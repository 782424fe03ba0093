/-
# Messages

What two nodes say to each other, and how it is written: as a CBOR record, except for the request for the
clock, which has no body.
-/
import DocMesh.Message.Kind
import DocMesh.Message.WireEntry

namespace DocMesh

open Cbor (Item)

/-! ## Messages -/

/-- How a node introduces itself to the peer that it has called. -/
structure HandshakeRequest where
  /-- The id of the node. -/
  node : String
  /-- The secret of the mesh. -/
  token : String
  /-- The names of the ways of compression that the node can read. -/
  compression : List String
  deriving DecidableEq, Inhabited

/-- How the peer answers. -/
structure HandshakeResponse where
  /-- The id of the peer. -/
  node : String
  /-- May the node go on? -/
  accepted : Bool
  /-- The way of compression that both will use. -/
  compression : Option String
  /-- Why the node may not go on. -/
  reason : Option String
  deriving DecidableEq, Inhabited

/-- A message. -/
inductive Message where
  | handshakeRequest (request : HandshakeRequest)
  | handshakeResponse (response : HandshakeResponse)
  | clockRequest
  | clockResponse (latest : Timestamp)
  | pullRequest (since : Timestamp)
  | changeSet (entries : List WireEntry)
  | pushRequest (entries : List WireEntry)
  | acknowledgement (success : Bool) (error : Option String)
  deriving DecidableEq, Inhabited

namespace Message

/-- The kind of the message. -/
def kind : Message → MessageKind
  | handshakeRequest _ => .handshakeRequest
  | handshakeResponse _ => .handshakeResponse
  | clockRequest => .clockRequest
  | clockResponse _ => .clockResponse
  | pullRequest _ => .pullRequest
  | changeSet _ => .changeSet
  | pushRequest _ => .pushRequest
  | acknowledgement _ _ => .acknowledgement

/-- The name of the message in errors. -/
def name (m : Message) : String := m.kind.name

end Message

namespace HandshakeResponse

/-- The answer that lets a node go on. -/
def accept (node : String) (compression : Option String) : HandshakeResponse :=
  ⟨node, true, compression, none⟩

/-- The answer that turns a node away. -/
def reject (node reason : String) : HandshakeResponse := ⟨node, false, none, some reason⟩

end HandshakeResponse

/-! ## Introductions as items -/

namespace HandshakeRequest

/-- The introduction as an item. -/
def item (r : HandshakeRequest) : Item :=
  .record [("node_id", .ofString r.node), ("auth_token", .ofString r.token),
    ("supported_compression", .array (r.compression.map .ofString))]

/-- The introduction of an item. -/
def ofItem? (i : Item) : Option HandshakeRequest := do
  match ← i.fields? 1 ["node_id", "auth_token", "supported_compression"] with
  | [node, token, compression] =>
    some ⟨← (← node).text?, ← (← token).text?, ← (← (← compression).list?).mapM Item.text?⟩
  | _ => none

end HandshakeRequest

namespace HandshakeResponse

/-- The answer as an item. -/
def item (r : HandshakeResponse) : Item :=
  .record [("node_id", .ofString r.node), ("accepted", .ofBool r.accepted),
    ("selected_compression", .ofOption .ofString r.compression), ("reason", .ofOption .ofString r.reason)]

/-- The answer of an item. -/
def ofItem? (i : Item) : Option HandshakeResponse := do
  match ← i.fields? 1 ["node_id", "accepted", "selected_compression", "reason"] with
  | [node, accepted, compression, reason] =>
    some ⟨← (← node).text?, ← (← accepted).bool?, ← (compression.getD .null).optional? Item.text?,
      ← (reason.getD .null).optional? Item.text?⟩
  | _ => none

end HandshakeResponse

namespace Message

/-! ## Other messages as items -/

/-- A timestamp under the given name, as an item. -/
def timestampItem (name : String) (t : Timestamp) : Item := .record [(name, t.item)]

/-- The timestamp under the given name. -/
def timestampOfItem? (name : String) (i : Item) : Option Timestamp := do
  match ← i.fields? 1 [name] with
  | [t] => Timestamp.ofItem? 2 (← t)
  | _ => none

/-- Entries as an item. -/
def entriesItem (entries : List WireEntry) : Item :=
  .record [("entries", .array (entries.map WireEntry.item))]

/-- The entries of an item. -/
def entriesOfItem? (i : Item) : Option (List WireEntry) := do
  match ← i.fields? 1 ["entries"] with
  | [entries] => (← (← entries).list?).mapM (WireEntry.ofItem? 3)
  | _ => none

/-- An acknowledgement as an item. -/
def acknowledgementItem (success : Bool) (error : Option String) : Item :=
  .record [("success", .ofBool success), ("error", .ofOption .ofString error)]

/-- The acknowledgement of an item. -/
def acknowledgementOfItem? (i : Item) : Option Message := do
  match ← i.fields? 1 ["success", "error"] with
  | [success, error] =>
    some (.acknowledgement (← (← success).bool?) (← (error.getD .null).optional? Item.text?))
  | _ => none

/-! ## Bodies -/

/-- The body of the message. -/
def encode : Message → Bytes
  | handshakeRequest r => r.item.encode
  | handshakeResponse r => r.item.encode
  | clockRequest => []
  | clockResponse t => (timestampItem "timestamp" t).encode
  | pullRequest t => (timestampItem "since" t).encode
  | changeSet entries | pushRequest entries => (entriesItem entries).encode
  | acknowledgement success error => (acknowledgementItem success error).encode

/-- The message of the given kind that an item holds. -/
def ofItem? (kind : MessageKind) (i : Item) : Option Message :=
  match kind with
  | .handshakeRequest => (HandshakeRequest.ofItem? i).map handshakeRequest
  | .handshakeResponse => (HandshakeResponse.ofItem? i).map handshakeResponse
  | .clockResponse => (timestampOfItem? "timestamp" i).map clockResponse
  | .pullRequest => (timestampOfItem? "since" i).map pullRequest
  | .changeSet => (entriesOfItem? i).map changeSet
  | .pushRequest => (entriesOfItem? i).map pushRequest
  | .acknowledgement => acknowledgementOfItem? i
  | .clockRequest | .envelope => none

/-- The message of the given kind with the given body. What follows the item of the body is passed over. -/
def decode (kind : MessageKind) (body : Bytes) : Except ProtocolError Message :=
  match kind with
  | .clockRequest => .ok clockRequest
  | .envelope => .error (.unexpectedMessage "sync message" kind.name)
  | _ =>
    match (Item.parse? body).bind fun (i, _) => ofItem? kind i with
    | some m => .ok m
    | none => .error (.decode ("not the body of a message of type " ++ kind.name))

/-- The message that carries the entries of a change set or of a push. -/
def entries? : Message → Option (List WireEntry)
  | changeSet entries | pushRequest entries => some entries
  | _ => none

end Message

end DocMesh
