/-
# Peers of the local network

The table of the peers that have been heard recently, one for each id.
-/
import DocMesh.Peer.Basic

namespace DocMesh

/-- The peers of the local network, by id. -/
abbrev PeerTable := Ordered Peer.id

namespace PeerTable

/-- Enters a peer, instead of one with the same id. Says also whether it was unknown. -/
def upsert (t : PeerTable) (p : Peer) : Bool × PeerTable := (!t.contains p.id, t.insert p)

/-- Has the peer been silent for longer than `window` milliseconds? -/
def silent (now : Int64) (window : Int) (p : Peer) : Bool := window < now.toInt - p.lastSeen.toInt

/-- Strikes the silent peers, and names them. -/
def expire (t : PeerTable) (now : Int64) (window : Int) : List String × PeerTable :=
  ((t.toList.filter (silent now window)).map (·.id), t.filter (!silent now window ·))

end PeerTable

end DocMesh
