/-
# Reaching peers

A network connects nodes. What it is made of is left open: a node calls a peer by its address, introduces itself
and asks.
-/
import DocMesh.Node.Config
import DocMesh.Sync.Dialogue

namespace DocMesh

/-- A way to reach peers over connections in state `σ`. -/
structure Network (σ : Type) where
  /-- Opens a connection, or says why there is none. -/
  dial : Address → Except String σ
  /-- Sends a message on a connection and waits for the answer. -/
  ask : Ask σ
  /-- At most this many requests are made on a connection. -/
  patience : σ → Nat

namespace Network

/-- What a host without a route to its peers says. -/
def noRoute : String := "Network is unreachable (os error 101)"

/-- The network of a host on its own: no peer can be reached. -/
def unreachable : Network Empty where
  dial _ := .error noRoute
  ask _ line := nomatch line
  patience line := nomatch line

variable {σ : Type}

/-- Opens a connection to a peer. -/
def connect (net : Network σ) (p : Peer) : Except NetworkError σ :=
  match p.endpoint with
  | .error e => .error (.store e)
  | .ok address => (net.dial address).mapError (.connect p.address)

/-- Opens a connection to a peer and introduces the node on it. -/
def call (net : Network σ) (c : NodeConfig) (p : Peer) : Except NetworkError σ :=
  match net.connect p with
  | .error e => .error e
  | .ok line =>
    match Ask.greet net.ask c.introduction line with
    | (.ok _, line) => .ok line
    | (.error e, _) => .error e

end Network

end DocMesh
