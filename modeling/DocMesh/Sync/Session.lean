/-
# Sessions with a peer

A session is one end of a channel on which a node asks a peer. Every request is one frame, and so is every
answer. The introduction settles how payloads are compressed from then on.
-/
import DocMesh.Sync.Dialogue
import DocMesh.Sync.Script

namespace DocMesh

/-- A session that a node has opened. -/
structure Session where
  codec : FrameCodec := {}
  /-- The other end. -/
  peer : ScriptedPeer
  /-- The id of the peer, once it has accepted the introduction. -/
  remote : Option String := none
  /-- How many frames were sent. -/
  sent : Nat := 0
  deriving Inhabited

namespace Session

/-- What was read after a request: the answer, or why there is none. A part of a frame is lost. -/
def read (s : Session) (request : Message) : Except NetworkError Message × Session :=
  match s.codec.arrival s.peer.unread with
  | .message m rest => (.ok m, { s with peer.unread := rest })
  | .fault e rest => (.error (.protocol e), { s with peer.unread := rest })
  | .incomplete =>
    (.error (if s.peer.gone then .closed else .timeout request.name), { s with peer.unread := [] })

/-- Sends a request and waits for the answer. -/
def ask : Ask Session := fun m s =>
  match s.codec.encodeMessage (Envelope.nonceOf s.sent) m with
  | .error e => (.error (.protocol e), s)
  | .ok frame =>
    if s.peer.gone then (.error .closed, s)
    else { s with sent := s.sent + 1, peer := s.peer.hear frame }.read m

/-- The session after the peer has accepted the introduction. -/
def welcomed (s : Session) (r : HandshakeResponse) : Session :=
  { s with codec.compression := r.compression.bind Compression.ofName?, remote := some r.node }

/-- Introduces the node. -/
def introduce (q : HandshakeRequest) : Dialogue Session Unit := do
  let r ← Ask.greet ask q
  modify (·.welcomed r)

/-- Asks for the latest timestamp in the peer's log. -/
def clock : Dialogue Session Timestamp := Ask.clock ask

/-- Asks for the entries after `since`: for the first page of them. -/
def pull (since : Timestamp) : Dialogue Session (List Entry) := Ask.pull ask since

/-- Pushes entries, in pages that fit into a frame as far as possible. -/
def push (entries : List Entry) : Dialogue Session Unit := do
  Ask.push ask (FrameCodec.pageBudget (← get).codec.maxSize) entries

end Session

end DocMesh
