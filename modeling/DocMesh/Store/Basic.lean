/-
# The store of a replica

A store holds the documents, the log and the registered peers of a node. Entries are applied in batches:
every entry is resolved against its document, and appended to the log unless the log has it already,
whether the resolver used it or not. A batch with an invalid entry changes nothing.
-/
import DocMesh.Peer.Basic
import DocMesh.Resolver.Basic
import DocMesh.Store.ChangeFeed

namespace DocMesh

/-- The documents, the log and the registered peers of a node. -/
structure Store where
  resolver : Resolver := .lastWriteWins
  /-- The documents, tombstones included, by collection and key. -/
  documents : Ordered Document.id := ∅
  /-- The log, by timestamp, collection and key. -/
  log : Ordered Entry.id := ∅
  /-- The registered peers, by id. -/
  peers : Ordered Peer.id := ∅
  feed : ChangeFeed := {}
  deriving Inhabited

/-- What a batch did. -/
structure Summary where
  /-- How many entries changed a document. -/
  applied : Nat := 0
  /-- How many entries changed none. -/
  ignored : Nat := 0
  /-- By how many entries the log has grown. -/
  appended : Nat := 0
  deriving DecidableEq, Inhabited

namespace Store

/-! ## Reading -/

/-- The document with the given collection and key, be it a tombstone. -/
def document? (s : Store) (collection key : String) : Option Document :=
  s.documents.find? ⟨collection, key⟩

/-- The entries with timestamps after `since`, in the order of the log. -/
def entriesAfter (s : Store) (since : Timestamp) : List Entry :=
  s.log.toList.filter fun e => since < e.timestamp

/-- The greatest timestamp in the log. -/
def latest (s : Store) : Timestamp :=
  match s.log.toList.getLast? with
  | some e => e.timestamp
  | none => .zero

/-- The names, without those that only repeat the one right before them. -/
def withoutRepeats (names : List String) : List String :=
  names.foldl (fun seen name => if seen.getLast? = some name then seen else seen ++ [name]) []

/-- The names of the collections with a document or a tombstone, ascending. -/
def collections (s : Store) : List String := withoutRepeats (s.documents.toList.map (·.collection))

/-- The documents of a collection, ascending by key, without tombstones. They are looked up from the empty key on, up to
the first document of another collection. -/
def liveDocuments (s : Store) (collection : String) : List Document :=
  ((s.documents.rangeFrom ⟨collection, ""⟩).takeWhile fun d => d.collection = collection).filter (!·.deleted)

/-! ## Writing documents as they are -/

/-- Writes a document without asking the resolver. -/
def putDocument (s : Store) (d : Document) : Store :=
  { s with documents := s.documents.insert d }

/-- Writes a document without asking the resolver, and announces it. -/
def saveDocument (s : Store) (d : Document) : Store :=
  { s.putDocument d with feed := s.feed.publish [d.collection] }

/-! ## Applying entries -/

/-- What is wrong with an entry, if anything is. -/
def entryFault? (e : Entry) : Option StoreError :=
  if e.collection.isEmpty || e.key.isEmpty then
    some (.invalidArgument "oplog entry needs a collection and a key")
  else if e.timestamp.node.isEmpty then
    some (.invalidArgument ("oplog entry " ++ e.collection ++ "/" ++ e.key ++ " has no node id"))
  else none

/-- Resolves one entry and appends it to the log. -/
def applyEntry (s : Store) (e : Entry) : Store :=
  let s := match s.resolver.resolve (s.documents.find? e.documentId) e with
    | .apply d => s.putDocument d
    | .ignore => s
  { s with log := s.log.insertNew e }

/-- Counts what an entry does to a store. -/
def countEntry (s : Store) (n : Summary) (e : Entry) : Summary :=
  let appended := if s.log.contains e.id then n.appended else n.appended + 1
  match s.resolver.resolve (s.documents.find? e.documentId) e with
  | .apply _ => { n with applied := n.applied + 1, appended := appended }
  | .ignore => { n with ignored := n.ignored + 1, appended := appended }

/-- Applies the entries one after the other, counting. -/
def applyEntries (s : Store) (n : Summary) : List Entry → Store × Summary
  | [] => (s, n)
  | e :: es => applyEntries (s.applyEntry e) (s.countEntry n e) es

/-- Writes the documents, applies the entries and announces the collections that were touched. Nothing is done if
one of the entries is invalid. -/
def applyBatch (s : Store) (documents : List Document) (entries : List Entry) :
    Except StoreError (Store × Summary) :=
  match entries.findSome? entryFault? with
  | some fault => .error fault
  | none =>
    let (s', n) := (documents.foldl putDocument s).applyEntries {} entries
    let touched := documents.map (·.collection) ++ entries.map (·.collection)
    .ok ({ s' with feed := s.feed.publish touched }, n)

/-! ## Registered peers -/

/-- Registers a peer, instead of one with the same id. A peer of the local network is not registered, and neither is one
without a proper address. -/
def savePeer (s : Store) (p : Peer) : Except StoreError Store :=
  if p.persistent then
    match p.endpoint with
    | .ok _ => .ok { s with peers := s.peers.insert p }
    | .error e => .error e
  else
    .error (.invalidArgument ("peer " ++ p.id ++ " is LAN-discovered and cannot be persisted"))

/-- Strikes a peer from the register. -/
def removePeer (s : Store) (id : String) : Store := { s with peers := s.peers.erase id }

/-! ## Description -/

/-- A line with the sizes of the store. -/
def description (s : Store) : String :=
  "MemoryPeerStore \x7b documents: " ++ toString s.documents.size ++ ", oplog: " ++ toString s.log.size ++
    ", remote_peers: " ++ toString s.peers.size ++ " \x7d"

end Store

/-! ## Storage that can fail -/

/-- A store, together with the reason why it cannot be used, if there is one. -/
structure Storage where
  store : Store := {}
  /-- Why every use of the store fails. -/
  fault : Option String := none
  deriving Inhabited

namespace Storage

/-- Reads from the store. -/
def read {α : Type} (s : Storage) (f : Store → α) : Except StoreError α :=
  match s.fault with
  | none => .ok (f s.store)
  | some reason => .error (.storage reason)

/-- Changes the store by a step that may refuse. -/
def update {α : Type} (s : Storage) (f : Store → Except StoreError (Store × α)) :
    Except StoreError (Storage × α) :=
  match s.fault with
  | none =>
    match f s.store with
    | .ok (store, a) => .ok ({ s with store := store }, a)
    | .error e => .error e
  | some reason => .error (.storage reason)

end Storage

end DocMesh
