/-
# Nodes

A node joins a database with everything that makes it a member of the mesh: it answers its peers, finds
them, gossips with them and looks who leads. `start` and `stop` do so for all parts at once.
-/
import DocMesh.Discovery.Service
import DocMesh.Election
import DocMesh.Sync.Gossip

namespace DocMesh

/-- A member of the mesh. -/
structure Node where
  gossip : Gossip
  /-- The discovery service, if peers are to be found on the local network. -/
  discovery : Option Discovery := none
  election : Election
  /-- The port on which the node answers its peers, while it runs. -/
  listening : Option UInt16 := none
  deriving Inhabited

namespace Node

/-- The configuration of the node. -/
def config (n : Node) : NodeConfig := n.gossip.config

/-- The database of the node. -/
def database (n : Node) : Database := n.gossip.database

/-- What is said of a database that belongs to another node. -/
def foreignDatabase (node owner : String) : NetworkError :=
  .config ("node id " ++ node ++ " does not match database node id " ++ owner)

/-- A node that does not run yet. -/
def create (c : NodeConfig) (db : Database) : Except NetworkError Node :=
  match c.validate with
  | .error e => .error e
  | .ok () =>
    if c.node = db.node then
      .ok
        { gossip := { config := c, database := db }
          discovery := if c.discovery.enabled then some { node := c.node, config := c.discovery } else none
          election := { node := c.node } }
    else .error (foreignDatabase c.node db.node)

/-! ## Peers -/

/-- The peers that are registered in the storage. A storage that fails has none. -/
def registered (n : Node) : List Peer := ((n.database.storage.read (·.peers.toList)).toOption).getD []

/-- The peers that are known now. -/
def activePeers (n : Node) : List Peer :=
  match n.discovery with
  | some d => d.activePeers n.registered
  | none => Peer.merge [] n.registered

/-- Registers a peer. -/
def addPeer (n : Node) (p : Peer) : Except StoreError Node :=
  (n.database.savePeer p).map fun db => { n with gossip.database := db }

/-- Strikes a peer from the register. -/
def removePeer (n : Node) (id : String) : Except StoreError Node :=
  (n.database.removePeer id).map fun db => { n with gossip.database := db }

/-- Registers peers one after the other, as long as that succeeds. -/
def addPeers (n : Node) : List Peer → Except NetworkError Unit × Node
  | [] => (.ok (), n)
  | p :: ps =>
    match n.addPeer p with
    | .ok n => n.addPeers ps
    | .error e => (.error (.store e), n)

/-! ## Leadership -/

/-- Looks who leads, as a running node does again and again. -/
def elect (n : Node) : Node :=
  if n.listening.isSome then { n with election := n.election.evaluate n.activePeers } else n

/-! ## Starting and stopping -/

/-- Ends a start, after the discovery service was started or could not be; without it the node does not run. A node that
runs looks at once who leads. -/
def finishStart (n : Node) : Except NetworkError Unit × Discovery → Except NetworkError Unit × Node
  | (.ok (), d) => (.ok (), { n with discovery := some d, gossip := n.gossip.start }.elect)
  | (.error e, d) => (.error e, { n with discovery := some d, listening := none })

/-- Starts the node: registers the static peers, answers peers on `port`, unless the node does so already, and starts
the other parts. `bind` binds a port for the discovery service. -/
def start (n : Node) (port : Except NetworkError UInt16) (bind : UInt16 → Except NetworkError UInt16) :
    Except NetworkError Unit × Node :=
  match n.addPeers n.config.staticPeers with
  | (.error e, n) => (.error e, n)
  | (.ok (), n) =>
    match n.listening.elim port .ok with
    | .error e => (.error e, n)
    | .ok port =>
      let n := { n with listening := some port }
      match n.discovery with
      | none => (.ok (), { n with gossip := n.gossip.start }.elect)
      | some d => n.finishStart ({ d with listening := port }.start bind)

/-- Stops all parts of the node. Its discovery service cannot be started again. -/
def stop (n : Node) : Node :=
  { n with gossip := n.gossip.stop, discovery := n.discovery.map (·.stop), listening := none }

/-- Lets the discovery service pause. -/
def pauseDiscovery (n : Node) : Node := { n with discovery := n.discovery.map (·.pause) }

/-- Lets the discovery service go on. -/
def resumeDiscovery (n : Node) (bind : UInt16 → Except NetworkError UInt16) : Except NetworkError Unit × Node :=
  match n.discovery with
  | none => (.ok (), n)
  | some d =>
    let (result, d) := d.start bind
    (result, { n with discovery := some d })

/-! ## Exchanging entries -/

/-- Runs a cycle with the peers that are known. -/
def sync {σ : Type} (net : Network σ) (draw : Nat → Nat) (n : Node) : Cycle × Node :=
  let (c, g) := n.gossip.cycle net draw n.activePeers
  (c, { n with gossip := g })

end Node

end DocMesh
