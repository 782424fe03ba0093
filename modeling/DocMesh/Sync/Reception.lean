/-
# Sessions that a peer has opened

The first message has to introduce the peer. If the introduction is accepted, requests are answered one
after the other, until the peer leaves or sends what it should not.
-/
import DocMesh.Sync.Responder

namespace DocMesh

namespace Reception

/-- How far a session has come. -/
inductive Phase where
  /-- The peer has to introduce itself. -/
  | greeting
  /-- Requests are answered. -/
  | serving
  /-- The session is over. -/
  | closed
  deriving DecidableEq, Inhabited

end Reception

/-- A session that a peer has opened. -/
structure Reception where
  responder : Responder
  phase : Reception.Phase := .greeting
  /-- How payloads are compressed from now on. -/
  compression : Option Compression := none
  deriving Inhabited

namespace Reception

/-- Ends the session. -/
def close (r : Reception) : Reception := { r with phase := .closed }

/-- Answers an introduction. -/
def greet (r : Reception) (q : HandshakeRequest) : Option Message × Reception :=
  match r.responder.greet q with
  | (response, scheme) =>
    (some (.handshakeResponse response),
      if response.accepted then { r with phase := .serving, compression := scheme } else r.close)

/-- Answers a request. -/
def serve (r : Reception) (m : Message) : Option Message × Reception :=
  match r.responder.answer m with
  | (.ok reply, responder) => (some reply, { r with responder := responder })
  | (.error _, responder) => (none, { r with responder := responder, phase := .closed })

/-- Takes what the peer has sent, or why nothing can be read from it, and says what is sent in return. -/
def receive (r : Reception) (arrived : Except NetworkError Message) : Option Message × Reception :=
  match r.phase, arrived with
  | .greeting, .ok (.handshakeRequest q) => r.greet q
  | .serving, .ok m => r.serve m
  | _, _ => (none, r.close)

/-- Takes one message after the other. -/
def receiveAll (r : Reception) : List (Except NetworkError Message) → List Message × Reception
  | [] => ([], r)
  | m :: ms =>
    let (reply, r) := r.receive m
    let (replies, r) := r.receiveAll ms
    (reply.toList ++ replies, r)

end Reception

end DocMesh
