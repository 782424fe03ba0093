/-
# The database of a node

A database joins a storage with the clock of its node. Local writes are stamped by the clock and go the
same way as changes received from peers; what is received moves the clock forward.
-/
import DocMesh.Clock.Hybrid
import DocMesh.Store.Basic

namespace DocMesh

/-- The replica of one node. -/
structure Database where
  storage : Storage
  clock : Clock
  deriving Inhabited

namespace Database

/-- Opens the database of a node at wall-clock time `now`. The clock goes on where the log ends. -/
def «open» (node : String) (storage : Storage) (now : Int64) : Except StoreError Database :=
  if node.isEmpty then .error (.invalidArgument "node id must not be empty")
  else
    match storage.read Store.latest with
    | .ok latest => .ok ⟨storage, Clock.seeded node latest now⟩
    | .error e => .error e

/-- The id of the node. -/
def node (db : Database) : String := db.clock.node

/-! ## The log -/

/-- The greatest timestamp in the log. -/
def latest (db : Database) : Except StoreError Timestamp := db.storage.read Store.latest

/-- The entries after `since`, ascending. -/
def entriesAfter (db : Database) (since : Timestamp) : Except StoreError (List Entry) :=
  db.storage.read (·.entriesAfter since)

/-- Applies a batch without moving the clock. -/
def applyBatch (db : Database) (documents : List Document) (entries : List Entry) :
    Except StoreError (Database × Summary) :=
  match db.storage.update (·.applyBatch documents entries) with
  | .ok (storage, n) => .ok ({ db with storage := storage }, n)
  | .error e => .error e

/-- Applies entries received from a peer and moves the clock past them. -/
def applyRemote (db : Database) (entries : List Entry) : Except StoreError (Database × Summary) :=
  if entries.isEmpty then .ok (db, {})
  else
    match db.applyBatch [] entries with
    | .ok (db, n) => .ok ({ db with clock := db.clock.observeAll (entries.map (·.timestamp)) }, n)
    | .error e => .error e

/-! ## Local writes -/

/-- Issues a timestamp at wall-clock time `now`. -/
def tick (db : Database) (now : Int64) : Timestamp × Database :=
  let (t, clock) := db.clock.tick now
  (t, { db with clock := clock })

/-- Makes a change to a document at wall-clock time `now`. The clock moves on even if the change fails. -/
def write (db : Database) (collection key : String) (operation : Operation) (payload : Option Json)
    (now : Int64) : Except StoreError Timestamp × Database :=
  if key.isEmpty then (.error (.invalidArgument "document key must not be empty"), db)
  else
    let (t, db) := db.tick now
    match db.applyBatch [] [⟨collection, key, operation, payload, t⟩] with
    | .ok (db, _) => (.ok t, db)
    | .error e => (.error e, db)

/-- Writes a document at wall-clock time `now`. -/
def put (db : Database) (collection key : String) (content : Json) (now : Int64) :
    Except StoreError Timestamp × Database :=
  db.write collection key .put (some content) now

/-- Deletes a document at wall-clock time `now`. -/
def delete (db : Database) (collection key : String) (now : Int64) :
    Except StoreError Timestamp × Database :=
  db.write collection key .delete none now

/-! ## Reading documents -/

/-- The document, unless it is deleted. -/
def get (db : Database) (collection key : String) : Except StoreError (Option Document) :=
  db.storage.read fun s => (s.document? collection key).filter (!·.deleted)

/-- The documents of a collection, ascending by key, without tombstones. -/
def list (db : Database) (collection : String) : Except StoreError (List Document) :=
  db.storage.read (·.liveDocuments collection)

/-! ## Registered peers -/

/-- Registers a peer. -/
def savePeer (db : Database) (p : Peer) : Except StoreError Database :=
  (db.storage.update fun s => (s.savePeer p).map (·, ())).map fun (storage, _) => { db with storage := storage }

/-- Strikes a peer from the register. -/
def removePeer (db : Database) (id : String) : Except StoreError Database :=
  (db.storage.update fun s => .ok (s.removePeer id, ())).map fun (storage, _) => { db with storage := storage }

end Database

end DocMesh
