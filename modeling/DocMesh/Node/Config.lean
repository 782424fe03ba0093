/-
# Configuration of a node

All times are in milliseconds. `NodeConfig.validate` names the first value that a node cannot run with.
-/
import DocMesh.Channel.Frame
import DocMesh.Network.Error
import DocMesh.Network.IpAddress
import DocMesh.Peer.Basic

namespace DocMesh

/-- When and with whom a node exchanges entries. -/
structure GossipConfig where
  /-- The time between two rounds. -/
  interval : Nat := 10000
  /-- With how many peers in a round, at most. -/
  fanOut : Nat := 3
  deriving DecidableEq, Inhabited

/-- How a node finds peers on the local network. -/
structure DiscoveryConfig where
  enabled : Bool := true
  /-- The port on which beacons are heard; any free one if it is 0. -/
  port : UInt16 := 5000
  /-- Where beacons are sent. -/
  target : IpAddress := .broadcast
  /-- The port to which beacons are sent, if it is another one. -/
  targetPort : Option UInt16 := none
  /-- The time between two beacons. -/
  beaconInterval : Nat := 5000
  /-- The time between two looks for silent peers. -/
  sweepInterval : Nat := 10000
  /-- After how long a silence a peer is forgotten. -/
  expiry : Nat := 15000
  /-- Are peers taken to be on this host, wherever their beacons come from? -/
  useLocalhost : Bool := false
  deriving DecidableEq, Inhabited

/-- How long a node waits. -/
structure Timeouts where
  /-- For a connection. -/
  connect : Nat := 5000
  /-- For the keys and the introduction. -/
  handshake : Nat := 10000
  /-- For the answer to a request. -/
  answer : Nat := 30000
  /-- For the next request of a peer. -/
  idle : Nat := 120000
  deriving DecidableEq, Inhabited

/-- The configuration of a node. -/
structure NodeConfig where
  /-- The id of the node. -/
  node : String := ""
  /-- The address on which the node listens. -/
  bindHost : IpAddress := .unspecified
  /-- The port on which the node listens; any free one if it is 0. -/
  port : UInt16 := 0
  /-- The secret of the mesh. -/
  token : String := ""
  /-- Are connections encrypted? -/
  secure : Bool := true
  /-- Is compression offered and accepted? -/
  compression : Bool := true
  /-- Payloads of at most this length are not compressed. -/
  threshold : Nat := Compression.defaultThreshold
  /-- The greatest length of a payload. -/
  maxFrameSize : Nat := 16 * 1024 * 1024
  timeouts : Timeouts := {}
  /-- How many peers are served at once. -/
  maxConnections : Nat := 256
  gossip : GossipConfig := {}
  discovery : DiscoveryConfig := {}
  /-- The time between two looks at who leads. -/
  electionInterval : Nat := 5000
  /-- Peers that are registered when the node starts. -/
  staticPeers : List Peer := []
  deriving DecidableEq, Inhabited

namespace DiscoveryConfig

/-- The port to which beacons are sent. -/
def beaconPort (c : DiscoveryConfig) : UInt16 := c.targetPort.getD c.port

/-- Where beacons are sent, as a text. -/
def targetText (c : DiscoveryConfig) : String := c.target.endpointText c.beaconPort

/-- What is wrong with the configuration, if anything is. -/
def fault? (c : DiscoveryConfig) : Option String :=
  if c.beaconInterval = 0 ∨ c.sweepInterval = 0 then some "discovery intervals must be positive"
  else if c.expiry < c.beaconInterval then
    some "peer expiry must not be shorter than the broadcast interval"
  else none

end DiscoveryConfig

namespace NodeConfig

/-- How frames are written and read, before keys and compression have been agreed on. -/
def codec (c : NodeConfig) : FrameCodec := { threshold := c.threshold, maxSize := c.maxFrameSize }

/-- How the node introduces itself to its peers. -/
def introduction (c : NodeConfig) : HandshakeRequest :=
  ⟨c.node, c.token, if c.compression then Compression.supportedNames else []⟩

/-- What the configuration asks for, and what is wrong where it does not hold. -/
def demands (c : NodeConfig) : List (Bool × String) :=
  [(!c.node.isEmpty, "node id must not be empty"),
    (!c.token.isEmpty, "auth token must not be empty"),
    (c.maxConnections != 0, "max connections must be at least 1"),
    (c.maxFrameSize != 0, "max frame size must be positive"),
    (c.timeouts.connect != 0, "connect timeout must be positive"),
    (c.timeouts.handshake != 0, "handshake timeout must be positive"),
    (c.timeouts.answer != 0, "io timeout must be positive"),
    (c.timeouts.idle != 0, "idle timeout must be positive"),
    (c.gossip.interval != 0, "sync interval must be positive"),
    (c.gossip.fanOut != 0, "sync fan-out must be at least 1")]

/-- What is wrong with a static peer, if anything is. -/
def peerFault? (p : Peer) : Option NetworkError :=
  if p.persistent then
    match p.endpoint with
    | .ok _ => none
    | .error e => some (.store e)
  else some (.config ("static peer " ++ p.id ++ " must not be LAN-discovered"))

/-- What is wrong with the configuration, if anything is. -/
def fault? (c : NodeConfig) : Option NetworkError :=
  match c.demands.find? fun d => !d.1 with
  | some (_, detail) => some (.config detail)
  | none =>
    match c.discovery.fault? with
    | some detail => some (.config detail)
    | none =>
      if c.electionInterval = 0 then some (.config "election interval must be positive")
      else c.staticPeers.findSome? peerFault?

/-- Refuses a configuration that a node cannot run with. -/
def validate (c : NodeConfig) : Except NetworkError Unit :=
  match c.fault? with
  | some e => .error e
  | none => .ok ()

end NodeConfig

end DocMesh
