/-
# Conversations with a peer

A conversation is a sequence of requests, each of which waits for its answer. What a request does to the
connection is left open: it may go over a network, to a peer that follows a script, or to a peer in the same
program.
-/
import DocMesh.Message.Pages
import DocMesh.Sync.Answer

namespace DocMesh

/-- A conversation over a connection in state `σ`. It may fail on the way. -/
abbrev Dialogue (σ α : Type) := ExceptT NetworkError (StateM σ) α

/-- A way to send a message and to wait for the answer. -/
abbrev Ask (σ : Type) := Message → Dialogue σ Message

namespace Ask

variable {σ : Type}

/-- Introduces a node. -/
def greet (ask : Ask σ) (q : HandshakeRequest) : Dialogue σ HandshakeResponse := do
  Answer.welcome (← ask (.handshakeRequest q))

/-- Asks for the latest timestamp in the peer's log. -/
def clock (ask : Ask σ) : Dialogue σ Timestamp := do
  Answer.clock (← ask .clockRequest)

/-- Asks for the entries after `since`: for the first page of them. -/
def pull (ask : Ask σ) (since : Timestamp) : Dialogue σ (List Entry) := do
  Answer.changes (← ask (.pullRequest since))

/-- Pushes pages one after the other, as long as the peer takes them. -/
def pushPages (ask : Ask σ) : List (List Entry) → Dialogue σ Unit
  | [] => pure ()
  | page :: pages => do
    Answer.taken (← ask (.pushRequest (page.map .ofEntry)))
    pushPages ask pages

/-- Pushes entries, in pages of at most `budget` bytes as far as possible. -/
def push (ask : Ask σ) (budget : Nat) (entries : List Entry) : Dialogue σ Unit :=
  pushPages ask (Entry.pages budget entries)

end Ask

end DocMesh
