/-
# Nodes and what is under way between them

A cluster consists of nodes, each with the writers and the exchanges that are at work there, and of the messages that
were sent. Every move is a small one: a write is stamped and applied later, a request is sent, answered later and the
answer is received later still, or lost, and the clock takes note of what was received after that. In between
everybody else may move, and a node may be closed and opened again.

Main statements:

* `run_write`, `run_answer`, `run_receive` : a local write, the answer to a request and its receipt are made up of
  moves;
* `grew_answer`, `grew_receive` : what is received brings its own entries into a log, and nothing else;
* `mem_outgoing_receive`, `mem_entries_answer` : what a node sends comes from its log.
-/
import DocMesh.Proofs.Database.Run
import DocMesh.Proofs.Sync.Following
import DocMesh.Proofs.Sync.Mesh
import Mathlib.Logic.Function.Basic

namespace DocMesh

/-! ## Logs that grow -/

namespace Database

variable {P Q : Entry → Prop} {db db' : Database} {e : Entry} {es : List Entry} {n : Summary}

/-- The entries in the log. -/
def log (db : Database) : List Entry := db.storage.store.log.toList

/-- The log has lost nothing, and what is new in it is of the given kind. -/
structure Grew (P : Entry → Prop) (db db' : Database) : Prop where
  kept : ∀ e ∈ db.log, e ∈ db'.log
  new : ∀ e ∈ db'.log, e ∈ db.log ∨ P e

/-- The clock has no influence on the log. -/
theorem grew_of_storage_eq (P : Entry → Prop) (h : db'.storage = db.storage) : Grew P db db' := by
  have hlog : db'.log = db.log := by rw [log, log, h]
  refine ⟨?_, ?_⟩
  · intro e he
    rwa [hlog]
  · intro e he
    rw [hlog] at he
    exact Or.inl he

theorem Grew.refl (P : Entry → Prop) (db : Database) : Grew P db db := grew_of_storage_eq P rfl

theorem Grew.mono (h : Grew P db db') (hPQ : ∀ e, P e → Q e) : Grew Q db db' :=
  ⟨h.kept, fun e he => (h.new e he).imp_right (hPQ e)⟩

/-- A batch brings its own entries into the log. -/
theorem grew_applyBatch (h : db.applyBatch [] es = .ok (db', n)) : Grew (· ∈ es) db db' := by
  refine ⟨fun e he => mem_log_of_applyBatch h he, ?_⟩
  intro e he
  rcases hfault : db.storage.fault with _ | reason
  · obtain ⟨s, hs, rfl⟩ := applyBatch_eq_ok hfault h
    obtain ⟨_, rfl⟩ := Store.eq_of_applyBatch_nil hs
    exact Store.mem_of_mem_log_applyAll he
  · rw [applyBatch, Storage.update, hfault] at h
    cases h

theorem grew_applyRemote (h : db.applyRemote es = .ok (db', n)) : Grew (· ∈ es) db db' := by
  rcases applyRemote_eq_ok_iff.1 h with ⟨rfl, rfl, _⟩ | ⟨_, db'', hb, rfl⟩
  · exact Grew.refl _ db'
  · have hgrew := grew_applyBatch hb
    exact ⟨hgrew.kept, hgrew.new⟩

/-- The clock takes note of the entries of a peer, and of nothing else. -/
theorem clock_of_applyRemote (h : db.applyRemote es = .ok (db', n)) :
    db'.clock = db.clock.observeAll (es.map (·.timestamp)) := by
  rcases applyRemote_eq_ok_iff.1 h with ⟨rfl, rfl, _⟩ | ⟨_, db'', hb, rfl⟩
  · rfl
  · show db''.clock.observeAll _ = _
    rw [clock_of_applyBatch hb]

/-- A database that was opened has the storage it was opened on, and a clock that starts from its log. -/
theorem eq_of_open {node : String} {storage : Storage} {now : Int64}
    (h : Database.open node storage now = .ok db) :
    db = ⟨storage, Clock.seeded node storage.store.latest now⟩ := by
  rw [Database.open] at h
  split at h
  · cases h
  · rcases hfault : storage.fault with _ | reason
    · rw [Storage.read, hfault] at h
      cases h
      rfl
    · rw [Storage.read, hfault] at h
      cases h

end Database

/-! ## What messages carry -/

namespace Message

/-- The entries that a message carries. -/
def entries : Message → List WireEntry
  | changeSet ws => ws
  | pushRequest ws => ws
  | _ => []

/-- Every entry that the message carries was written from one of the given kind. -/
def Carries (P : Entry → Prop) (m : Message) : Prop := ∀ w ∈ m.entries, ∃ e, P e ∧ w = .ofEntry e

variable {P : Entry → Prop} {m : Message} {ws : List WireEntry} {as : List Entry}

/-- Of entries that were written so there are read the carried ones. -/
theorem exists_carried_of_toEntries (hws : ∀ w ∈ ws, ∃ e, P e ∧ w = .ofEntry e)
    (h : WireEntry.toEntries ws = .ok as) : ∀ a ∈ as, ∃ e, P e ∧ a = e.carried := by
  have hmap : ∃ es : List Entry, (∀ e ∈ es, P e) ∧ ws = es.map .ofEntry := by
    clear h
    induction ws with
    | nil => exact ⟨[], List.forall_mem_nil P, rfl⟩
    | cons w ws ih =>
      obtain ⟨e, he, rfl⟩ := hws w List.mem_cons_self
      obtain ⟨es, hes, rfl⟩ := ih fun v hv => hws v (List.mem_cons_of_mem _ hv)
      exact ⟨e :: es, List.forall_mem_cons.2 ⟨he, hes⟩, rfl⟩
  obtain ⟨es, hes, rfl⟩ := hmap
  intro a ha
  rw [Entry.toEntries_map_ofEntry h] at ha
  obtain ⟨e, he, rfl⟩ := List.mem_map.1 ha
  exact ⟨e, hes e he, rfl⟩

/-- Of a change set with such entries there are read the carried ones. -/
theorem exists_carried_of_changes (hm : m.Carries P) (h : Answer.changes m = .ok as) :
    ∀ a ∈ as, ∃ e, P e ∧ a = e.carried := by
  unfold Answer.changes at h
  split at h
  · rename_i ws
    split at h <;> cases h
    rename_i hws
    exact exists_carried_of_toEntries hm hws
  · cases h

end Message

/-! ## Responders -/

namespace Responder

variable {P : Entry → Prop} {r : Responder} {m a : Message}

/-- An answer to a request brings the entries of the request into the log. -/
theorem grew_answer (h : m.Carries P) (r : Responder) :
    Database.Grew (fun a => ∃ e, P e ∧ a = e.carried) r.database (r.answer m).2.database := by
  unfold answer
  split
  · split <;> exact .refl _ _
  · split <;> exact .refl _ _
  · split
    · rename_i es hes
      dsimp only
      rw [accept]
      rcases hok : r.database.applyRemote es with fault | ⟨db, n⟩
      · exact .refl _ _
      · exact (Database.grew_applyRemote hok).mono (Message.exists_carried_of_toEntries h hes)
    · exact .refl _ _
  · exact .refl _ _

/-- The entries in an answer are in the log. -/
theorem mem_entries_answer (h : (r.answer m).1 = .ok a) : a.Carries (· ∈ r.database.log) := by
  intro w hw
  unfold answer at h
  split at h
  · split at h <;> cases h
    cases hw
  · rename_i since
    split at h
    · rename_i page hpage
      cases h
      obtain ⟨e, he, rfl⟩ := List.mem_map.1 hw
      refine ⟨e, ?_, rfl⟩
      rw [changeSet, Database.entriesAfter, Storage.read] at hpage
      rcases hfault : r.database.storage.fault with _ | reason
      · rw [hfault] at hpage
        cases hpage
        exact (Store.mem_entriesAfter.1 (Entry.mem_of_mem_page he)).1
      · rw [hfault] at hpage
        cases hpage
    · cases h
  · split at h
    · rename_i es _
      dsimp only at h
      rw [accept] at h
      split at h <;> cases h <;> cases hw
    · cases h
  · cases h

end Responder

/-! ## Exchanges -/

namespace Exchange

variable {P : Entry → Prop} {x : Exchange} {m : Message} {e : Entry}

/-- The entries that are still to be pushed. -/
def outgoing (x : Exchange) : List Entry :=
  match x.phase with
  | .push page waiting => page ++ waiting.flatten
  | _ => []

@[simp] theorem outgoing_pushing (x : Exchange) (pages : List (List Entry)) :
    (x.pushing pages).outgoing = pages.flatten := by
  cases pages <;> rfl

theorem outgoing_beginPull (x : Exchange) (peerLatest : Timestamp) :
    (x.beginPull peerLatest).outgoing = [] := by
  rw [beginPull]
  split <;> rfl

/-- What is to be pushed comes from the log. -/
theorem mem_outgoing_beginPush {peerLatest : Timestamp} (he : e ∈ (x.beginPush peerLatest).outgoing) :
    e ∈ x.database.log := by
  rw [beginPush] at he
  rcases hes : x.database.entriesAfter peerLatest with fault | es
  · rw [hes] at he
    cases he
  · rw [hes] at he
    dsimp only at he
    rw [outgoing_pushing, Entry.flatten_pages] at he
    rw [Database.entriesAfter, Storage.read] at hes
    split at hes <;> cases hes
    exact (Store.mem_entriesAfter.1 he).1

/-- A request carries entries that are to be pushed. -/
theorem carries_request (h : x.request? = some m) : m.Carries (· ∈ x.outgoing) := by
  intro w hw
  rw [request?] at h
  split at h <;> cases h <;> try cases hw
  rename_i page waiting hphase
  obtain ⟨e, he, rfl⟩ := List.mem_map.1 hw
  refine ⟨e, ?_, rfl⟩
  rw [outgoing, hphase]
  exact List.mem_append_left _ he

/-- All that an answer can do to the database is to have its entries applied. -/
theorem database_receiveMessage (x : Exchange) (m : Message) :
    (x.receiveMessage m).database = x.database ∨
      ∃ es n, Answer.changes m = .ok es ∧ x.database.applyRemote es = .ok ((x.receiveMessage m).database, n) := by
  unfold receiveMessage
  split
  · split
    · exact Or.inl (database_beginPull _ _)
    · exact Or.inl rfl
  · split
    · rename_i es hes
      rw [pull]
      split
      · exact Or.inl (database_beginPush _ _)
      · split
        · exact Or.inl rfl
        · split
          · rename_i n hok
            exact Or.inr ⟨es, n, hes, hok⟩
          · exact Or.inl rfl
    · exact Or.inl rfl
  · split
    · exact Or.inl (database_pushing _ _)
    · exact Or.inl rfl
  · exact Or.inl rfl
  · exact Or.inl rfl

/-- The same of an answer that may be absent. -/
theorem database_receive (x : Exchange) (reply : Except NetworkError Message) :
    (x.receive reply).database = x.database ∨
      ∃ m es n, reply = .ok m ∧ Answer.changes m = .ok es ∧
        x.database.applyRemote es = .ok ((x.receive reply).database, n) := by
  unfold receive
  split
  · exact Or.inl rfl
  · rename_i m _
    rcases x.database_receiveMessage m with h | ⟨es, n, hes, hok⟩
    · exact Or.inl h
    · exact Or.inr ⟨m, es, n, rfl, hes, hok⟩
  · exact Or.inl rfl

/-- What is left to be pushed after an answer was left to be pushed before, or comes from the log. -/
theorem mem_outgoing_receiveMessage (he : e ∈ (x.receiveMessage m).outgoing) :
    e ∈ x.outgoing ∨ e ∈ x.database.log := by
  unfold receiveMessage at he
  split at he
  · split at he
    · rw [outgoing_beginPull] at he
      cases he
    · cases he
  · split at he
    · rw [pull] at he
      split at he
      · exact Or.inr (mem_outgoing_beginPush he)
      · split at he
        · cases he
        · split at he <;> cases he
    · cases he
  · rename_i page waiting hphase
    split at he
    · rw [outgoing_pushing] at he
      rw [outgoing, hphase]
      exact Or.inl (List.mem_append_right _ he)
    · cases he
  · exact Or.inl he
  · exact Or.inl he

/-- An answer brings its entries into the log, and its absence brings nothing. -/
theorem grew_receive {reply : Except NetworkError Message} (h : ∀ m, reply = .ok m → m.Carries P)
    (x : Exchange) :
    Database.Grew (fun a => ∃ e, P e ∧ a = e.carried) x.database (x.receive reply).database := by
  rcases x.database_receive reply with heq | ⟨m, es, n, hm, hes, hok⟩
  · rw [heq]
    exact .refl _ _
  · exact (Database.grew_applyRemote hok).mono (Message.exists_carried_of_changes (h m hm) hes)

/-- The clock takes note of what an answer brings, and of nothing else. -/
theorem clock_receive (x : Exchange) (reply : Except NetworkError Message) :
    ∃ ts, (x.receive reply).database.clock = x.database.clock.observeAll ts := by
  rcases x.database_receive reply with heq | ⟨m, es, n, -, -, hok⟩
  · rw [heq]
    exact ⟨[], rfl⟩
  · exact ⟨_, Database.clock_of_applyRemote hok⟩

/-- What is left to be pushed after an answer was left to be pushed before, or comes from the log. -/
theorem mem_outgoing_receive {reply : Except NetworkError Message}
    (he : e ∈ (x.receive reply).outgoing) : e ∈ x.outgoing ∨ e ∈ x.database.log := by
  unfold receive at he
  split at he
  · exact Or.inl he
  · exact mem_outgoing_receiveMessage he
  · cases he

end Exchange

/-! ## Clusters -/

namespace Cluster

/-- A node, and what is at work there. -/
structure Member where
  database : Database
  /-- The local writes that are stamped and not yet applied. -/
  pending : List Entry := []
  /-- The exchanges that the node has begun. What is kept of their databases does not count. -/
  exchanges : List Exchange := []

/-- What happens at node `i`. -/
inductive Move (ι : Type) where
  /-- A writer has its change stamped at wall-clock time `now`. -/
  | stamp (i : ι) (collection key : String) (operation : Operation) (payload : Option Json) (now : Int64)
  /-- A writer applies its stamped change. -/
  | apply (i : ι) (e : Entry)
  /-- The clock takes note of a timestamp. -/
  | observe (i : ι) (t : Timestamp)
  /-- An exchange begins. -/
  | exchange (i : ι) (budget : Nat)
  /-- The `n`-th exchange sends its request. -/
  | ask (i : ι) (n : Nat)
  /-- A message arrives as a request, and is answered. -/
  | answer (i : ι) (m : Message) (budget : Nat)
  /-- A message arrives as the answer for the `n`-th exchange. -/
  | receive (i : ι) (n : Nat) (m : Message)
  /-- The `n`-th exchange fails. -/
  | lose (i : ι) (n : Nat) (e : NetworkError)
  /-- The node is closed and opened again at wall-clock time `now`. -/
  | reopen (i : ι) (now : Int64)
  deriving DecidableEq

namespace Member

/-- The entries in the log. -/
def log (x : Member) : List Entry := x.database.log

/-- Has its change stamped. A change without a key is refused before. -/
def stamp (x : Member) (collection key : String) (operation : Operation) (payload : Option Json)
    (now : Int64) : Member :=
  if key.isEmpty then x
  else
    { x with
      database := (x.database.tick now).2
      pending := ⟨collection, key, operation, payload, (x.database.tick now).1⟩ :: x.pending }

/-- Applies a stamped change. -/
def apply (x : Member) (e : Entry) : Member :=
  if e ∈ x.pending then
    { x with
      database :=
        match x.database.applyBatch [] [e] with
        | .ok (db, _) => db
        | .error _ => x.database
      pending := x.pending.erase e }
  else x

/-- Takes over a storage. -/
def store (x : Member) (storage : Storage) : Member := { x with database.storage := storage }

/-- What answers requests at the node. -/
def responder (x : Member) (budget : Nat) : Responder :=
  { database := x.database, token := "", budget := budget }

/-- The `n`-th exchange goes on with an answer, or with the reason why there is none. -/
def hear (x : Member) (n : Nat) (reply : Except NetworkError Message) : Member :=
  match x.exchanges[n]? with
  | some y =>
    let z := { y with database := x.database }.receive reply
    { x.store z.database.storage with exchanges := x.exchanges.set n z }
  | none => x

/-- Closes the node and opens it again. What was at work is lost. -/
def reopen (x : Member) (now : Int64) : Member :=
  match Database.open x.database.node x.database.storage now with
  | .ok db => { database := db }
  | .error _ => x

end Member

end Cluster

/-- Some nodes, and the messages that were sent. A message may arrive late, several times, anywhere or never. -/
structure Cluster (ι : Type) where
  members : ι → Cluster.Member
  messages : List Message := []

namespace Cluster

variable {ι : Type} [DecidableEq ι]

/-- The entries in the log of a node. -/
def log (c : Cluster ι) (i : ι) : List Entry := (c.members i).log

/-- Node `i` goes on as `x`. -/
def update (c : Cluster ι) (i : ι) (x : Member) : Cluster ι :=
  { c with members := Function.update c.members i x }

/-- One more message was sent. -/
def send (c : Cluster ι) (m : Message) : Cluster ι := { c with messages := m :: c.messages }

/-- What a move does. The storage is changed at once by what arrives, but the clock only by moves of its own. -/
def perform (c : Cluster ι) : Move ι → Cluster ι
  | .stamp i collection key operation payload now =>
    c.update i ((c.members i).stamp collection key operation payload now)
  | .apply i e => c.update i ((c.members i).apply e)
  | .observe i t =>
    c.update i { c.members i with database.clock := (c.members i).database.clock.observe t }
  | .exchange i budget =>
    let x : Exchange := { database := (c.members i).database, budget := budget }
    c.update i { c.members i with exchanges := (c.members i).exchanges ++ [x] }
  | .ask i n =>
    match ((c.members i).exchanges[n]?).bind Exchange.request? with
    | some m => c.send m
    | none => c
  | .answer i m budget =>
    if m ∈ c.messages then
      match ((c.members i).responder budget).answer m with
      | (.ok a, r) => (c.update i ((c.members i).store r.database.storage)).send a
      | (.error _, r) => c.update i ((c.members i).store r.database.storage)
    else c
  | .receive i n m => if m ∈ c.messages then c.update i ((c.members i).hear n (.ok m)) else c
  | .lose i n e => c.update i ((c.members i).hear n (.error e))
  | .reopen i now => c.update i ((c.members i).reopen now)

/-- What the moves do one after the other. -/
def run (c : Cluster ι) (moves : List (Move ι)) : Cluster ι := moves.foldl perform c

/-! ## What moves make up -/

variable {c : Cluster ι} {i : ι} {m : Message} {e : Entry} {es : List Entry} {collection key : String}

theorem run_cons (c : Cluster ι) (m : Move ι) (moves : List (Move ι)) :
    c.run (m :: moves) = (c.perform m).run moves := rfl

@[simp] theorem members_update_self (c : Cluster ι) (i : ι) (x : Member) : (c.update i x).members i = x := by
  show Function.update c.members i x i = x
  rw [Function.update_self]

/-- What holds of node `i` as it becomes and of all nodes as they were holds of all nodes afterwards. -/
theorem forall_members_update {P : ι → Member → Prop} {x : Member} (hx : P i x) (h : ∀ k, P k (c.members k)) :
    ∀ k, P k ((c.update i x).members k) :=
  (Function.forall_update_iff c.members P).2 ⟨hx, fun k _ => h k⟩

/-- A local write that nobody interrupts is a stamp and an application. -/
theorem run_write (c : Cluster ι) (i : ι) (collection : String) (operation : Operation)
    (payload : Option Json) (now : Int64) (hkey : key ≠ "") :
    ((c.run [.stamp i collection key operation payload now,
        .apply i ⟨collection, key, operation, payload, ((c.members i).database.tick now).1⟩]).members i).database
      = ((c.members i).database.write collection key operation payload now).2 := by
  have hne : key.isEmpty = false := by
    rw [← Bool.not_eq_true, String.isEmpty_iff]
    exact hkey
  rw [Database.write_eq _ collection operation payload now hkey, run_cons, run_cons, perform, perform]
  show ((update _ _ _).members i).database = _
  rw [members_update_self, members_update_self, Member.stamp, hne, if_neg Bool.false_ne_true,
    Member.apply, if_pos List.mem_cons_self]
  dsimp only
  generalize Database.applyBatch _ _ _ = result
  rcases result with fault | ⟨db, n⟩ <;> rfl

/-- The clock takes note of timestamps one after the other. -/
theorem run_observe (c : Cluster ι) (i : ι) (ts : List Timestamp) :
    (c.run (ts.map (.observe i))).members i
      = { c.members i with database.clock := (c.members i).database.clock.observeAll ts } := by
  induction ts generalizing c with
  | nil => rfl
  | cons t ts ih =>
    rw [List.map_cons, run_cons, ih, perform, members_update_self]
    rfl

/-- The answer to pushed entries that nobody interrupts is an answer that leaves the clock alone, after which the
clock takes note of the entries. -/
theorem run_answer {ws : List WireEntry} (hm : .pushRequest ws ∈ c.messages) (i : ι) (budget : Nat)
    (hes : WireEntry.toEntries ws = .ok es) {db : Database} {n : Summary}
    (hok : (c.members i).database.applyRemote es = .ok (db, n)) :
    ((c.run (.answer i (.pushRequest ws) budget :: (es.map (·.timestamp)).map (.observe i))).members i).database
      = (((c.members i).responder budget).answer (.pushRequest ws)).2.database := by
  have haccept : ((c.members i).responder budget).answer (.pushRequest ws)
      = (.ok (.acknowledgement true none), { (c.members i).responder budget with database := db }) := by
    rw [Responder.answer, hes]
    dsimp only
    rw [Responder.accept, Member.responder, hok]
  have hstep : (c.perform (.answer i (.pushRequest ws) budget)).members i
      = (c.members i).store db.storage := by
    rw [perform, if_pos hm, haccept]
    exact members_update_self c i _
  rw [run_cons, run_observe, hstep, haccept]
  show (⟨db.storage, (c.members i).database.clock.observeAll _⟩ : Database) = db
  rw [← Database.clock_of_applyRemote hok]

/-- The receipt of an answer that nobody interrupts is one that leaves the clock alone, after which the clock takes
note of what has been received. -/
theorem run_receive (hm : m ∈ c.messages) {n : Nat} {x : Exchange} (hx : (c.members i).exchanges[n]? = some x) :
    ∃ ts : List Timestamp, ((c.run (.receive i n m :: ts.map (.observe i))).members i).database
      = ({ x with database := (c.members i).database }.receive (.ok m)).database := by
  obtain ⟨ts, hts⟩ := Exchange.clock_receive { x with database := (c.members i).database } (.ok m)
  generalize hz : ({ x with database := (c.members i).database } : Exchange).receive (.ok m) = z
  rw [hz] at hts
  refine ⟨ts, ?_⟩
  have hstep : ((c.perform (.receive i n m)).members i).database
      = { (c.members i).database with storage := z.database.storage } := by
    rw [perform, if_pos hm, Member.hear, hx]
    dsimp only
    rw [hz, members_update_self]
    rfl
  rw [run_cons, run_observe]
  dsimp only
  rw [hstep, ← hts]

end Cluster

end DocMesh
