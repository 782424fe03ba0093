/-
# Peers

What a node knows about another node: its id, its address, when it was last heard from, and how it
became known.
-/
import DocMesh.Json.Reader
import DocMesh.Peer.Address
import DocMesh.StoreError

namespace DocMesh

/-! ## Kinds of peers -/

/-- How a peer became known. -/
inductive PeerKind where
  /-- Heard on the local network. Forgotten when it falls silent. -/
  | lan
  /-- Named in the configuration. -/
  | static
  /-- A relay or another node that is always on. -/
  | cloud
  deriving DecidableEq, Inhabited

namespace PeerKind

/-- The name that stands in records. -/
def name : PeerKind → String
  | lan => "LanDiscovered"
  | static => "StaticRemote"
  | cloud => "CloudRemote"

/-- The kind of the given name. -/
def ofName? (s : String) : Option PeerKind :=
  [lan, static, cloud].find? (·.name = s)

/-- The code of the kind. -/
def code : PeerKind → UInt8
  | lan => 0
  | static => 1
  | cloud => 2

/-- The kind with the given code. -/
def ofCode (n : UInt8) : Except StoreError PeerKind :=
  match [lan, static, cloud].find? (·.code = n) with
  | some k => .ok k
  | none => .error (.unknownPeerKind n)

end PeerKind

/-! ## Peers -/

/-- A known peer. -/
structure Peer where
  id : String
  /-- The text of its address, which need not be one. -/
  address : String
  /-- When it was last heard from, in milliseconds since the Unix epoch. -/
  lastSeen : Int64
  kind : PeerKind
  deriving DecidableEq, Inhabited

namespace Peer

/-- Does the peer outlive a restart of the node? -/
def persistent (p : Peer) : Bool := p.kind != .lan

/-- Where the peer listens. -/
def endpoint (p : Peer) : Except StoreError Address :=
  match Address.parse? p.address with
  | some a => .ok a
  | none => .error (.invalidAddress p.address)

/-! ## Records -/

/-- The names of the fields, in order. -/
def fieldNames : List String := ["node_id", "address", "last_seen", "peer_type"]

/-- The peer as a record. -/
def record (p : Peer) : Json :=
  .object [("node_id", p.id), ("address", p.address), ("last_seen", .ofInt p.lastSeen.toInt),
    ("peer_type", p.kind.name)]

/-- The peer of a record. -/
def ofRaw? (r : Raw) : Option Peer := do
  match ← r.fields? fieldNames with
  | [id, address, lastSeen, kind] =>
    some ⟨← (← id).text?, ← (← address).text?,
      .ofInt (← (← lastSeen).int? Int64.minValue.toInt Int64.maxValue.toInt),
      ← (← (← kind).caseName?) |> PeerKind.ofName?⟩
  | _ => none

end Peer

/-- The given peers by id; of two with the same id, one of the `preferred` ones, else the later one. -/
def Peer.merge (preferred others : List Peer) : List Peer :=
  (Ordered.ofList (others ++ preferred) : Ordered Peer.id).toList

end DocMesh
