/-
# Answering requests

A responder answers the requests of peers from the database of its node. Before anything else a peer has
to introduce itself with the secret of the mesh.
-/
import DocMesh.Channel.Frame
import DocMesh.Network.Error
import DocMesh.Store.Database

namespace DocMesh

/-- What answers requests. -/
structure Responder where
  database : Database
  /-- The secret of the mesh. -/
  token : String
  /-- Is compression accepted? -/
  compression : Bool := true
  /-- How many bytes the entries of a change set may take. -/
  budget : Nat := FrameCodec.pageBudget (16 * 1024 * 1024)
  deriving Inhabited

namespace Responder

/-- Does the peer know the secret of the mesh? -/
def admits (token presented : String) : Bool := token == presented

/-- The answer to an introduction, and the compression that is agreed on by it. -/
def greet (r : Responder) (q : HandshakeRequest) : HandshakeResponse × Option Compression :=
  if !admits r.token q.token then (.reject r.database.node "invalid auth token", none)
  else if q.node.isEmpty then (.reject r.database.node "missing node id", none)
  else
    let scheme := if r.compression then Compression.negotiate q.compression else none
    (.accept r.database.node (scheme.map Compression.name), scheme)

/-- The change set that answers a request for the entries after `since`: the first page of them. -/
def changeSet (r : Responder) (since : Timestamp) : Except StoreError (List Entry) :=
  (r.database.entriesAfter since).map (Entry.page (max r.budget 1))

/-- Applies pushed entries. A storage that fails, or that refuses an entry, is the content of the answer. -/
def accept (r : Responder) (entries : List Entry) : Message × Responder :=
  match r.database.applyRemote entries with
  | .ok (database, _) => (.acknowledgement true none, { r with database := database })
  | .error e => (.acknowledgement false (some e.message), r)

/-- The answer to a request of a peer that has been introduced. -/
def answer (r : Responder) : Message → Except NetworkError Message × Responder
  | .clockRequest =>
    match r.database.latest with
    | .ok t => (.ok (.clockResponse t), r)
    | .error e => (.error (.store e), r)
  | .pullRequest since =>
    match r.changeSet since with
    | .ok page => (.ok (.changeSet (page.map .ofEntry)), r)
    | .error e => (.error (.store e), r)
  | .pushRequest entries =>
    match WireEntry.toEntries entries with
    | .ok entries => let (m, r) := r.accept entries; (.ok m, r)
    | .error e => (.error (.protocol e), r)
  | m => (.error (.unexpected "sync request" m.name), r)

end Responder

end DocMesh
