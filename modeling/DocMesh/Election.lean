/-
# Leader election

Of the nodes that know each other, the one with the smallest id leads. Cloud peers do not take part. Two
parts of a mesh that do not know each other may each have a leader.
-/
import DocMesh.Peer.Basic

namespace DocMesh

/-- The view of one node on who leads. -/
structure Election where
  /-- The id of the node. -/
  node : String
  /-- Did the node lead when it last looked? -/
  leading : Bool := false
  deriving DecidableEq, Inhabited

namespace Election

/-- May the peer lead? -/
def eligible (p : Peer) : Bool := p.kind != .cloud

/-- Does the node lead, given the peers that it knows? -/
def leads (node : String) (peers : List Peer) : Bool :=
  (peers.filter eligible).all fun p => node ≤ p.id

/-- Looks again who leads. -/
def evaluate (e : Election) (peers : List Peer) : Election := { e with leading := leads e.node peers }

end Election

end DocMesh
