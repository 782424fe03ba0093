/-
# Options of a node

The options that all commands share which start a node, and the configuration and the database that they
describe.
-/
import DocMesh.Cli.Argument
import DocMesh.Cli.Input
import DocMesh.Node.Config
import DocMesh.Store.Database

namespace DocMesh

/-- What is said about a node on the command line. -/
structure NodeOptions where
  /-- The id of the node; it must be given. -/
  node : Option String := none
  port : UInt16 := 0
  bindHost : IpAddress := .unspecified
  /-- The secret of the mesh; it must be given. -/
  token : Option String := none
  resolver : Resolver := .lastWriteWins
  /-- The texts of static peers. -/
  peers : List String := []
  /-- The texts of documents to write before the start. -/
  seeds : List String := []
  discoveryPort : UInt16 := 5000
  noDiscovery : Bool := false
  localhost : Bool := false
  /-- The time between two rounds, in seconds. -/
  interval : Nat := 10
  fanOut : Nat := 3
  insecure : Bool := false
  noCompression : Bool := false
  deriving DecidableEq, Inhabited

namespace NodeOptions

/-! ## Reading the options -/

/-- The port with the given number, which may have a sign. -/
def port? (s : String) : Option UInt16 :=
  match DecimalNumeral.integer? s.toList with
  | some n => if 0 ≤ n ∧ n < 65536 then some (UInt16.ofNat n.toNat) else none
  | none => none

/-- A natural number of at most 64 bits. -/
def count? (s : String) : Option Nat := DecimalNumeral.below? UInt64.size s.toList

/-- The options, within what the options of a command make up. -/
def options {σ : Type} (change : (NodeOptions → NodeOptions) → σ → σ) : List (CommandOption σ) :=
  [.single "node-id" none some fun v => change ({ · with node := some v }),
    .single "port" (some 'p') port? fun v => change ({ · with port := v }),
    .single "bind" none IpAddress.parse? fun v => change ({ · with bindHost := v }),
    .single "auth-token" none some fun v => change ({ · with token := some v }),
    .single "resolver" none Resolver.ofName? fun v => change ({ · with resolver := v }),
    .multiple "peer" fun v => change fun o => { o with peers := o.peers ++ [v] },
    .multiple "seed" fun v => change fun o => { o with seeds := o.seeds ++ [v] },
    .single "discovery-port" none port? fun v => change ({ · with discoveryPort := v }),
    .switch "no-discovery" none (change ({ · with noDiscovery := true })),
    .switch "localhost" none (change ({ · with localhost := true })),
    .single "sync-interval" none count? fun v => change ({ · with interval := v }),
    .single "fan-out" none count? fun v => change ({ · with fanOut := v }),
    .switch "insecure" none (change ({ · with insecure := true })),
    .switch "no-compression" none (change ({ · with noCompression := true })),
    .help]

/-- Are the options there that must be there? -/
def complete (o : NodeOptions) : Bool := o.node.isSome && o.token.isSome

/-- The options that the arguments give. -/
def parse (args : List String) : Except UsageError NodeOptions :=
  match Reading.all (options id) args {} with
  | .ok o => if o.complete then .ok o else .error .missingArgument
  | .error e => .error e

/-! ## What the options describe -/

/-- The id of the node. -/
def nodeId (o : NodeOptions) : String := o.node.getD ""

/-- How the node finds peers. -/
def discovery (o : NodeOptions) : DiscoveryConfig :=
  if o.noDiscovery then { enabled := false } else { port := o.discoveryPort, useLocalhost := o.localhost }

/-- The configuration with the given static peers. -/
def configWith (o : NodeOptions) (peers : List Peer) : NodeConfig :=
  { node := o.nodeId
    bindHost := o.bindHost
    port := o.port
    token := o.token.getD ""
    secure := !o.insecure
    compression := !o.noCompression
    gossip := { interval := 1000 * o.interval, fanOut := o.fanOut }
    discovery := o.discovery
    staticPeers := peers }

/-- The configuration, if a node can run with it. -/
def config (o : NodeOptions) : Except CommandError NodeConfig :=
  match o.peers.mapM Peer.parse with
  | .error e => .error e
  | .ok peers =>
    match (o.configWith peers).validate with
    | .ok () => .ok (o.configWith peers)
    | .error e => .error (.network e)

/-- Writes seeds one after the other at wall-clock time `now`. -/
def sow (now : Int64) : List String → Database → Except CommandError Database
  | [], db => .ok db
  | text :: texts, db =>
    match Seed.parse text with
    | .error e => .error e
    | .ok seed =>
      match db.put seed.collection seed.key seed.content now with
      | (.ok _, db) => sow now texts db
      | (.error e, _) => .error (.store e)

/-- The database with the seeds, written at wall-clock time `now`. -/
def openDatabase (o : NodeOptions) (now : Int64) : Except CommandError Database :=
  match Database.open o.nodeId { store := { resolver := o.resolver } } now with
  | .ok db => sow now o.seeds db
  | .error e => .error (.store e)

end NodeOptions

end DocMesh
