/-
# Gossip

A node exchanges entries with its peers in cycles. For a cycle a few of the known peers are chosen at random;
each of them is met on its own, and whatever comes of a meeting is counted.
-/
import DocMesh.Sync.Exchange
import DocMesh.Sync.Network

namespace DocMesh

/-! ## What comes of a cycle -/

/-- What came of meeting a peer. -/
structure Encounter where
  /-- The id of the peer. -/
  peer : String
  result : Except NetworkError Transfer

/-- What came of a cycle: the encounters in the order in which they ended. -/
structure Cycle where
  encounters : List Encounter := []

namespace Cycle

/-- The number of peers that were chosen. -/
def selected (c : Cycle) : Nat := c.encounters.length

/-- The peers with which entries were exchanged. -/
def synced (c : Cycle) : List (String × Transfer) :=
  c.encounters.filterMap fun e => e.result.toOption.map (e.peer, ·)

/-- The peers with which no entries could be exchanged, and why. -/
def failures (c : Cycle) : List (String × NetworkError) :=
  c.encounters.filterMap fun e =>
    match e.result with
    | .ok _ => none
    | .error cause => some (e.peer, cause)

end Cycle

/-! ## Statistics -/

/-- What a node has counted since it was made. -/
structure Statistics where
  /-- The cycles in which a peer was met. -/
  completed : Nat := 0
  /-- The cycles in which there was no peer to meet. -/
  skipped : Nat := 0
  /-- The encounters that succeeded. -/
  synced : Nat := 0
  /-- The encounters that failed. -/
  failures : Nat := 0
  /-- How many entries were moved. -/
  moved : Transfer := {}
  /-- Why the last encounter failed that did. -/
  lastError : Option String := none
  deriving DecidableEq, Inhabited

namespace Statistics

/-- Counts an encounter. -/
def count (s : Statistics) (e : Encounter) : Statistics :=
  match e.result with
  | .ok t =>
    { s with synced := s.synced + 1, moved := ⟨s.moved.pulled + t.pulled, s.moved.pushed + t.pushed⟩ }
  | .error cause => { s with failures := s.failures + 1, lastError := some cause.message }

/-- Counts a cycle and its encounters. -/
def countCycle (s : Statistics) (c : Cycle) : Statistics :=
  if c.encounters.isEmpty then { s with skipped := s.skipped + 1 }
  else { c.encounters.foldl count s with completed := s.completed + 1 }

end Statistics

/-! ## Gossip of a node -/

/-- What a node needs to exchange entries. -/
structure Gossip where
  config : NodeConfig
  database : Database
  statistics : Statistics := {}
  /-- Does a cycle begin whenever the interval has passed? -/
  running : Bool := false
  deriving Inhabited

namespace Gossip

variable {σ : Type}

/-- Lets cycles begin at intervals. -/
def start (g : Gossip) : Gossip := { g with running := true }

/-- Lets no more cycles begin by themselves. -/
def stop (g : Gossip) : Gossip := { g with running := false }

/-! ### Choosing peers -/

/-- The peers that the node may meet: the known ones without itself. -/
def candidates (g : Gossip) (known : List Peer) : List Peer := known.filter (·.id != g.config.node)

/-- Takes `n` of the peers, or all if there are not that many. The numbers of `draw` say which: the next number
counts through the peers that are left, again and again. -/
def choose (draw : Nat → Nat) : (n : Nat) → List Peer → List Peer
  | 0, _ => []
  | _ + 1, [] => []
  | n + 1, p :: ps =>
    let i := draw n % (p :: ps).length
    (p :: ps).getD i p :: choose draw n ((p :: ps).eraseIdx i)

/-! ### Meeting peers -/

/-- Meets a peer. -/
def meet (net : Network σ) (g : Gossip) (p : Peer) : Encounter × Gossip :=
  match net.call g.config p with
  | .error e => (⟨p.id, .error e⟩, g)
  | .ok line =>
    let x : Exchange := { database := g.database, budget := FrameCodec.pageBudget g.config.maxFrameSize }
    let (x, _) := x.runWith net.ask (net.patience line) line
    (⟨p.id, x.result?.getD (.error .closed)⟩, { g with database := x.database })

/-- Meets one peer after the other. -/
def meetAll (net : Network σ) (g : Gossip) : List Peer → List Encounter × Gossip
  | [] => ([], g)
  | p :: ps =>
    let (e, g) := meet net g p
    let (es, g) := meetAll net g ps
    (e :: es, g)

/-- Meets a peer and counts the encounter. -/
def syncWith (net : Network σ) (g : Gossip) (p : Peer) : Encounter × Gossip :=
  let (e, g) := meet net g p
  (e, { g with statistics := g.statistics.count e })

/-- Runs a cycle: meets some of the known peers and counts the encounters. -/
def cycle (net : Network σ) (draw : Nat → Nat) (known : List Peer) (g : Gossip) : Cycle × Gossip :=
  let (es, g) := meetAll net g (choose draw (max g.config.gossip.fanOut 1) (g.candidates known))
  (⟨es⟩, { g with statistics := g.statistics.countCycle ⟨es⟩ })

end Gossip

end DocMesh
