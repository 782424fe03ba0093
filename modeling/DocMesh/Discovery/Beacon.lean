/-
# Beacons

What a node sends again and again, so that the others on the local network know where it listens.
-/
import DocMesh.Json.Printer
import DocMesh.Json.Reader

namespace DocMesh

/-- A sign of life. -/
structure Beacon where
  /-- The id of the node. -/
  node : String
  /-- The port on which it listens. -/
  port : UInt16
  deriving DecidableEq, Inhabited

namespace Beacon

/-- The beacon as a record. -/
def record (b : Beacon) : Json := .object [("node_id", b.node), ("tcp_port", .ofInt b.port.toNat)]

/-- The beacon of a record. -/
def ofRaw? (r : Raw) : Option Beacon := do
  match ← r.fields? ["node_id", "tcp_port"] with
  | [node, port] => some ⟨← (← node).text?, UInt16.ofNat (← (← port).int? 0 65535).toNat⟩
  | _ => none

/-- The beacon with the given written form. -/
def parse? (bs : Bytes) : Option Beacon := (Raw.parse? bs).bind ofRaw?

end Beacon

end DocMesh
