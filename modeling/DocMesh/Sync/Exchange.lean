/-
# Exchanges

In an exchange a node pulls what a peer has beyond its own log, page by page, and then pushes what it has
beyond the peer's log. The exchange is a machine: it says which request is to be sent next, and goes on with the
answer, or with the reason why there is none.
-/
import DocMesh.Message.Pages
import DocMesh.Store.Database
import DocMesh.Sync.Dialogue

namespace DocMesh

/-- How many entries an exchange has moved. -/
structure Transfer where
  /-- From the peer to this node. -/
  pulled : Nat := 0
  /-- From this node to the peer. -/
  pushed : Nat := 0
  deriving DecidableEq, Inhabited

namespace Exchange

/-- How far an exchange has come. -/
inductive Phase where
  /-- The peer was asked for its latest timestamp. -/
  | clock
  /-- The peer was asked for the entries after `since`. -/
  | pull (peerLatest since : Timestamp)
  /-- A page was sent to the peer, and others wait. -/
  | push (page : List Entry) (waiting : List (List Entry))
  /-- The exchange has succeeded. -/
  | finished
  /-- The exchange has failed. -/
  | failed (e : NetworkError)
  deriving DecidableEq, Inhabited

end Exchange

/-- An exchange with a peer. -/
structure Exchange where
  /-- The database of this node. -/
  database : Database
  /-- How many bytes the entries of a pushed page may take. -/
  budget : Nat
  phase : Exchange.Phase := .clock
  /-- How many entries were pulled, and how many there are to push. -/
  moved : Transfer := {}
  deriving Inhabited

namespace Exchange

/-- The request that waits for an answer. -/
def request? (x : Exchange) : Option Message :=
  match x.phase with
  | .clock => some .clockRequest
  | .pull _ since => some (.pullRequest since)
  | .push page _ => some (.pushRequest (page.map .ofEntry))
  | .finished | .failed _ => none

/-- The exchange after a failure. -/
def fail (x : Exchange) (e : NetworkError) : Exchange := { x with phase := .failed e }

/-- The exchange once the given pages are left to be pushed. -/
def pushing (x : Exchange) : List (List Entry) → Exchange
  | [] => { x with phase := .finished }
  | page :: pages => { x with phase := .push page pages }

/-- Goes over to pulling. -/
def beginPull (x : Exchange) (peerLatest : Timestamp) : Exchange :=
  match x.database.latest with
  | .ok since => { x with phase := .pull peerLatest since }
  | .error e => x.fail (.store e)

/-- Goes over to pushing. -/
def beginPush (x : Exchange) (peerLatest : Timestamp) : Exchange :=
  match x.database.entriesAfter peerLatest with
  | .ok entries => { x with moved.pushed := entries.length }.pushing (Entry.pages x.budget entries)
  | .error e => x.fail (.store e)

/-- What is said of a change set that ends at `since` or before. -/
def noAdvance (since : Timestamp) : NetworkError :=
  .protocol (.malformedEntry ("change set does not advance past " ++ since.text))

/-- Applies a change set, if it leads past `since`, and goes on with the next one. An empty change set is the last. -/
def pull (x : Exchange) (peerLatest since : Timestamp) (entries : List Entry) : Exchange :=
  match entries.getLast? with
  | none => x.beginPush peerLatest
  | some last =>
    if last.timestamp ≤ since then x.fail (noAdvance since)
    else
      match x.database.applyRemote entries with
      | .ok (database, _) =>
        { x with database := database, moved.pulled := x.moved.pulled + entries.length,
                 phase := .pull peerLatest last.timestamp }
      | .error e => x.fail (.store e)

/-- Goes on with an answer. -/
def receiveMessage (x : Exchange) (m : Message) : Exchange :=
  match x.phase with
  | .clock =>
    match Answer.clock m with
    | .ok peerLatest => x.beginPull peerLatest
    | .error e => x.fail e
  | .pull peerLatest since =>
    match Answer.changes m with
    | .ok entries => x.pull peerLatest since entries
    | .error e => x.fail e
  | .push _ pages =>
    match Answer.taken m with
    | .ok () => x.pushing pages
    | .error e => x.fail e
  | .finished | .failed _ => x

/-- Goes on with an answer, or with the reason why there is none. -/
def receive (x : Exchange) (reply : Except NetworkError Message) : Exchange :=
  match x.request?, reply with
  | none, _ => x
  | some _, .ok m => x.receiveMessage m
  | some _, .error e => x.fail e

/-- How the exchange has ended. -/
def result? (x : Exchange) : Option (Except NetworkError Transfer) :=
  match x.phase with
  | .finished => some (.ok x.moved)
  | .failed e => some (.error e)
  | _ => none

/-! ## Runs -/

/-- The exchange after the given answers. -/
def run (x : Exchange) (replies : List (Except NetworkError Message)) : Exchange := replies.foldl receive x

/-- The exchange with a peer that is asked in the given way, after at most `rounds` requests. -/
def runWith {σ : Type} (ask : Ask σ) : (rounds : Nat) → Exchange → σ → Exchange × σ
  | 0, x, peer => (x, peer)
  | rounds + 1, x, peer =>
    match x.request? with
    | none => (x, peer)
    | some m =>
      match ask m peer with
      | (reply, peer) => runWith ask rounds (x.receive reply) peer

end Exchange

end DocMesh
