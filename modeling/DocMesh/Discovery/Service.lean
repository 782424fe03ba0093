/-
# The discovery service

While the service runs, it sends beacons, hears those of other nodes and forgets nodes that have fallen
silent. A pause closes the port, and the next start opens the same one again. A stop is final.

Starting takes two steps, `begin` and `finish`, because a port has to be bound in between; the service may
be stopped while that is going on.
-/
import DocMesh.Discovery.Beacon
import DocMesh.Discovery.PeerTable
import DocMesh.Node.Config

namespace DocMesh

namespace Discovery

/-- What the service is doing. -/
inductive Phase where
  /-- It was not started yet, or is being started. -/
  | idle
  /-- It listens on the given port. -/
  | running (port : UInt16)
  /-- It will listen on the given port again. -/
  | paused (port : UInt16)
  /-- It will never run again. -/
  | stopped
  deriving DecidableEq, Inhabited

/-- The binding of a port that is going on. -/
structure Attempt where
  /-- The port to bind. -/
  port : UInt16
  /-- Is this the port of a service that was paused? -/
  resumed : Bool
  deriving DecidableEq, Inhabited

end Discovery

/-- The discovery service of a node. -/
structure Discovery where
  /-- The id of the node. -/
  node : String
  config : DiscoveryConfig
  /-- The port that the beacons name; there are none as long as it is 0. -/
  listening : UInt16 := 0
  /-- The peers that have been heard. -/
  table : PeerTable := ∅
  phase : Discovery.Phase := .idle
  deriving Inhabited

namespace Discovery

/-! ## Starting and stopping -/

/-- Does the service run? -/
def isRunning (d : Discovery) : Bool :=
  match d.phase with
  | .running _ => true
  | _ => false

/-- The port on which the service listens. -/
def listenPort? (d : Discovery) : Option UInt16 :=
  match d.phase with
  | .running port => some port
  | _ => none

/-- Begins to start the service: says which port is to be bound, if any. -/
def begin (d : Discovery) : Except NetworkError (Option Attempt) × Discovery :=
  match d.phase with
  | .idle => (.ok (some ⟨d.config.port, false⟩), d)
  | .paused port => (.ok (some ⟨port, true⟩), { d with phase := .idle })
  | .running _ => (.ok none, d)
  | .stopped => (.error .stopped, d)

/-- Ends a start, after the port has been bound or could not be. `bound` is the port on which the service can listen. -/
def finish (d : Discovery) (a : Attempt) (bound : Except NetworkError UInt16) :
    Except NetworkError Unit × Discovery :=
  match bound, d.phase with
  | .error e, .idle => (.error e, if a.resumed then { d with phase := .paused a.port } else d)
  | .error e, _ => (.error e, d)
  | .ok port, .idle => (.ok (), { d with phase := .running port })
  | .ok _, .stopped => (.error .stopped, d)
  | .ok _, _ => (.ok (), d)

/-- Starts or resumes the service. `bind` binds a port and says which one it was. -/
def start (d : Discovery) (bind : UInt16 → Except NetworkError UInt16) :
    Except NetworkError Unit × Discovery :=
  match d.begin with
  | (.error e, d) => (.error e, d)
  | (.ok none, d) => (.ok (), d)
  | (.ok (some a), d) => d.finish a (bind a.port)

/-- Closes the port and keeps the peers. -/
def pause (d : Discovery) : Discovery :=
  match d.phase with
  | .running port => { d with phase := .paused port }
  | _ => d

/-- Closes the port for good and forgets the peers. -/
def stop (d : Discovery) : Discovery := { d with phase := .stopped, table := ∅ }

/-! ## Beacons -/

/-- At most this many bytes of a datagram are read. -/
def datagramLimit : Nat := 2048

/-- The beacon to send, if the node listens on a port. -/
def beacon? (d : Discovery) : Option Beacon :=
  if d.listening = 0 then none else some ⟨d.node, d.listening⟩

/-- Does the beacon tell of another node that can be reached? -/
def concerns (d : Discovery) (b : Beacon) : Bool := b.node != d.node && !b.node.isEmpty && b.port != 0

/-- The peer that a beacon from the given host tells of. -/
def peerOf (d : Discovery) (b : Beacon) (sender : IpAddress) (now : Int64) : Peer :=
  ⟨b.node, (if d.config.useLocalhost then .localhost else sender).endpointText b.port, now, .lan⟩

/-- Takes note of a datagram that arrived from the given host. Says also whether it told of an unknown peer. -/
def hear (d : Discovery) (datagram : Bytes) (sender : IpAddress) (now : Int64) : Bool × Discovery :=
  if !d.isRunning then (false, d)
  else
    match Beacon.parse? (datagram.take datagramLimit) with
    | none => (false, d)
    | some b =>
      if d.concerns b then
        let (unknown, table) := d.table.upsert (d.peerOf b sender now)
        (unknown, { d with table := table })
      else (false, d)

/-- Forgets the peers that have fallen silent, and names them. -/
def sweep (d : Discovery) (now : Int64) : List String × Discovery :=
  if !d.isRunning then ([], d)
  else
    let (silent, table) := d.table.expire now d.config.expiry
    (silent, { d with table := table })

/-! ## Peers -/

/-- The other nodes that are known: those that have been heard, and registered ones. -/
def activePeers (d : Discovery) (registered : List Peer) : List Peer :=
  (Peer.merge d.table.toList registered).filter (·.id != d.node)

end Discovery

end DocMesh
