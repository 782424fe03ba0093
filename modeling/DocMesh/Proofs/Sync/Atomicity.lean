/-
# All or nothing

A batch is applied as a whole or not at all, and so is what a peer pushes. The functions that apply give back no
new state when they fail. Here the same is done in place: the programs of this module change what they work on one
step after the other, nothing is taken back when one of them fails, and still a failure leaves everything as it was,
since whatever can go wrong goes wrong before the first change.

Main statements:

* `Store.applyInPlace_eq` : a batch in place;
* `Responder.answerInPlace_eq` : the answer to a push in place;
* `Responder.all_or_nothing` : when a batch and a push are applied as a whole, and what they leave otherwise.
-/
import DocMesh.Proofs.Store.Application
import DocMesh.Sync.Responder

namespace DocMesh

/-! ## A batch in place -/

namespace Store

/-- Fails if the entry is invalid. -/
def check (e : Entry) : EStateM StoreError Store Unit :=
  match entryFault? e with
  | some fault => throw fault
  | none => pure ()

/-- Applies an entry and counts what it does. -/
def applyCounted (n : Summary) (e : Entry) : EStateM StoreError Store Summary := do
  let n := (← get).countEntry n e
  modify (·.applyEntry e)
  return n

/-- Checks the entries, writes the documents, applies the entries and announces the collections that were touched. -/
def applyInPlace (documents : List Document) (entries : List Entry) : EStateM StoreError Store Summary := do
  entries.forM check
  documents.forM fun d => modify (·.putDocument d)
  let n ← entries.foldlM applyCounted {}
  let touched := documents.map (·.collection) ++ entries.map (·.collection)
  modify fun s => { s with feed := s.feed.publish touched }
  return n

/-- The check fails at the first entry that is invalid, and changes nothing. -/
theorem forM_check (s : Store) (es : List Entry) :
    es.forM check s
      = match es.findSome? entryFault? with
        | some fault => .error fault s
        | none => .ok () s := by
  induction es with
  | nil => rfl
  | cons e es ih =>
    show EStateM.bind (check e) (fun _ => es.forM check) s = _
    rw [EStateM.bind, check, List.findSome?_cons]
    rcases entryFault? e with _ | fault
    · exact ih
    · rfl

theorem forM_putDocument (s : Store) (documents : List Document) :
    documents.forM (fun d => modify (m := EStateM StoreError Store) (·.putDocument d)) s
      = .ok () (documents.foldl putDocument s) := by
  induction documents generalizing s with
  | nil => rfl
  | cons d documents ih => exact ih (s.putDocument d)

theorem foldlM_applyCounted (s : Store) (n : Summary) (es : List Entry) :
    es.foldlM applyCounted n s = .ok (s.applyEntries n es).2 (s.applyEntries n es).1 := by
  induction es generalizing s n with
  | nil => rfl
  | cons e es ih => exact ih (s.applyEntry e) (s.countEntry n e)

@[simp] theorem feed_applyEntry (s : Store) (e : Entry) : (s.applyEntry e).feed = s.feed := by
  rw [applyEntry]
  split <;> rfl

@[simp] theorem feed_applyAll (s : Store) (es : List Entry) : (s.applyAll es).feed = s.feed := by
  induction es generalizing s with
  | nil => rfl
  | cons e es ih => rw [applyAll_cons, ih, feed_applyEntry]

@[simp] theorem feed_foldl_putDocument (s : Store) (documents : List Document) :
    (documents.foldl putDocument s).feed = s.feed := by
  induction documents generalizing s with
  | nil => rfl
  | cons d documents ih => exact ih (s.putDocument d)

/-- **A batch in place.** It does what the batch does, and a batch that is refused leaves the store as it was. -/
theorem applyInPlace_eq (s : Store) (documents : List Document) (es : List Entry) :
    applyInPlace documents es s
      = match s.applyBatch documents es with
        | .ok (s', n) => .ok n s'
        | .error fault => .error fault s := by
  show EStateM.bind (es.forM check) _ s = _
  rw [EStateM.bind, forM_check, applyBatch_eq]
  rcases es.findSome? entryFault? with _ | fault
  · show EStateM.bind (documents.forM _) _ s = _
    rw [EStateM.bind, forM_putDocument]
    show EStateM.bind (es.foldlM applyCounted {}) _ _ = _
    rw [EStateM.bind, foldlM_applyCounted, applyEntries_fst]
    -- until it is announced nothing is announced
    have hfeed : ((documents.foldl putDocument s).applyAll es).feed = s.feed := by
      rw [feed_applyAll, feed_foldl_putDocument]
    rw [← hfeed]
    rfl
  · rfl

/-- **When a batch is refused.** This is so exactly if one of its entries, wherever it is, lacks its collection, its key
or the id of its node. -/
theorem refused_iff (s : Store) (documents : List Document) (es : List Entry) :
    (∃ fault, s.applyBatch documents es = .error fault)
      ↔ ∃ e ∈ es, e.collection = "" ∨ e.key = "" ∨ e.timestamp.node = "" := by
  rw [exists_applyBatch_eq_error_iff]
  simp only [entryFault?_eq_none_iff, Classical.not_forall, Classical.not_not, exists_prop]

end Store

/-! ## A push in place -/

namespace Database

variable {db : Database} {es : List Entry}

/-- Works on the store. A storage that cannot be used fails, and the store stays as it is. -/
def onStore {α : Type} (m : EStateM StoreError Store α) : EStateM StoreError Database α := fun db =>
  match db.storage.fault with
  | some reason => .error (.storage reason) db
  | none =>
    match m db.storage.store with
    | .ok a s => .ok a { db with storage := { db.storage with store := s } }
    | .error e s => .error e { db with storage := { db.storage with store := s } }

/-- Applies the entries, and then moves the clock past them. -/
def applyRemoteInPlace (entries : List Entry) : EStateM StoreError Database Summary := do
  if entries.isEmpty then return {}
  let n ← onStore (Store.applyInPlace [] entries)
  modify fun db => { db with clock := db.clock.observeAll (entries.map (·.timestamp)) }
  return n

/-- **Entries of a peer in place.** They are applied as the database applies them, and if they are refused the database
stays as it was. -/
theorem applyRemoteInPlace_eq (db : Database) (es : List Entry) :
    applyRemoteInPlace es db
      = match db.applyRemote es with
        | .ok (db', n) => .ok n db'
        | .error e => .error e db := by
  -- the clock moves only after the entries have been applied
  rcases db with ⟨⟨s, fault⟩, clock⟩
  rw [applyRemoteInPlace, applyRemote]
  by_cases hempty : es.isEmpty
  · rw [if_pos hempty, if_pos hempty]
    rfl
  · rw [if_neg hempty, if_neg hempty]
    show EStateM.bind (onStore (Store.applyInPlace [] es)) _ _ = _
    rw [EStateM.bind, onStore, applyBatch, Storage.update, Store.applyInPlace_eq]
    cases fault with
    | none => rcases s.applyBatch [] es with fault | ⟨s', n⟩ <;> rfl
    | some reason => rfl

/-- Are the entries applied? There are none, or the storage can be used and all of them have what an entry needs. -/
def Takes (db : Database) (es : List Entry) : Prop :=
  es = [] ∨ db.storage.fault = none ∧ ∀ e ∈ es, ¬ (e.collection = "" ∨ e.key = "" ∨ e.timestamp.node = "")

/-- The database after the entries of a peer. -/
def taking (db : Database) (es : List Entry) : Database :=
  let store := { db.storage.store.applyAll es with
    feed := db.storage.store.feed.publish (es.map (·.collection)) }
  ⟨{ db.storage with store := store }, db.clock.observeAll (es.map (·.timestamp))⟩

theorem applyRemote_of_takes (h : db.Takes es) : ∃ n, db.applyRemote es = .ok (db.taking es, n) := by
  by_cases hempty : es.isEmpty
  · rw [List.isEmpty_iff.1 hempty]
    exact ⟨{}, rfl⟩
  · rcases h with rfl | ⟨hfault, hes⟩
    · exact absurd rfl hempty
    · rcases db with ⟨⟨s, fault⟩, clock⟩
      cases hfault
      have hbatch := s.applyBatch_nil_of_valid fun e he => (Store.entryFault?_eq_none_iff e).2 (hes e he)
      rw [applyRemote, if_neg hempty, applyBatch, Storage.update]
      dsimp only
      rw [hbatch]
      exact ⟨_, rfl⟩

theorem exists_applyRemote_eq_error (h : ¬ db.Takes es) : ∃ fault, db.applyRemote es = .error fault := by
  rw [Takes, not_or] at h
  obtain ⟨hempty, hes⟩ := h
  rw [applyRemote, if_neg (fun h => hempty (List.isEmpty_iff.1 h)), applyBatch, Storage.update]
  rcases hfault : db.storage.fault with _ | reason
  · have hmissing : ∃ e ∈ es, e.collection = "" ∨ e.key = "" ∨ e.timestamp.node = "" :=
      Decidable.of_not_not fun hnone => hes ⟨hfault, fun e he hm => hnone ⟨e, he, hm⟩⟩
    obtain ⟨fault, hrefused⟩ := (db.storage.store.refused_iff [] es).2 hmissing
    rw [hrefused]
    exact ⟨fault, rfl⟩
  · exact ⟨.storage reason, rfl⟩

end Database

namespace WireEntry

/-- An entry of a message that cannot be read is malformed. -/
theorem toEntry_cases (w : WireEntry) :
    (∃ e, w.toEntry = .ok e) ∨ ∃ detail, w.toEntry = .error (.malformedEntry detail) := by
  rw [toEntry]
  rcases Operation.ofName? w.operation with _ | operation
  · exact Or.inr ⟨_, rfl⟩
  · rw [content]
    rcases w.payload with _ | text
    · exact Or.inl ⟨_, rfl⟩
    · dsimp only
      rcases Json.parse? text with _ | v
      · exact Or.inr ⟨_, rfl⟩
      · exact Or.inl ⟨_, rfl⟩

/-- All entries of a message are read, or one of them, wherever it is, cannot be read. -/
theorem toEntries_cases (ws : List WireEntry) :
    (∃ es, ws.map toEntry = es.map .ok ∧ toEntries ws = .ok es) ∨
      (∃ w ∈ ws, ∀ e, w.toEntry ≠ .ok e) ∧ ∃ detail, toEntries ws = .error (.malformedEntry detail) := by
  induction ws with
  | nil => exact Or.inl ⟨[], rfl, rfl⟩
  | cons w ws ih =>
    rw [toEntries]
    rcases w.toEntry_cases with ⟨e, he⟩ | ⟨detail, hw⟩
    · rw [he]
      rcases ih with ⟨es, hmap, hes⟩ | ⟨⟨w', hw', hunread⟩, detail, hws⟩
      · refine Or.inl ⟨e :: es, ?_, ?_⟩
        · rw [List.map_cons, List.map_cons, he, hmap]
        · rw [hes]
          rfl
      · refine Or.inr ⟨⟨w', List.mem_cons_of_mem w hw', hunread⟩, detail, ?_⟩
        rw [hws]
        rfl
    · rw [hw]
      refine Or.inr ⟨⟨w, List.mem_cons_self, fun e he => ?_⟩, detail, rfl⟩
      rw [hw] at he
      cases he

end WireEntry

namespace Responder

/-- Reads what is pushed, applies it and acknowledges. What cannot be read is an error. A storage that fails, or that
refuses an entry, is the content of the answer. -/
def answerInPlace (entries : List WireEntry) : EStateM NetworkError Database Message := fun db =>
  match WireEntry.toEntries entries with
  | .error e => .error (.protocol e) db
  | .ok entries =>
    match Database.applyRemoteInPlace entries db with
    | .ok _ db => .ok (.acknowledgement true none) db
    | .error e db => .ok (.acknowledgement false (some e.message)) db

/-- **A push in place.** The answer and what becomes of the database are those of the responder. -/
theorem answerInPlace_eq (r : Responder) (ws : List WireEntry) :
    answerInPlace ws r.database
      = match r.answer (.pushRequest ws) with
        | (.ok m, r') => .ok m r'.database
        | (.error e, r') => .error e r'.database := by
  rw [answerInPlace, answer]
  rcases WireEntry.toEntries ws with fault | es
  · rfl
  · dsimp only
    rw [accept, Database.applyRemoteInPlace_eq]
    rcases r.database.applyRemote es with fault | ⟨db, n⟩ <;> rfl

/-- **All or nothing.** Done in place, a batch does what it does as a whole, and it leaves the store as it was, the feed
included, exactly if one of its entries lacks its collection, its key or the id of its node. A push, done in place as
well, has three ends: its entries can be read and are applied, and the answer says so; they can be read but not be
applied, and a failed acknowledgement leaves everything as it was; one of them, wherever it is, cannot be read, and the
error leaves everything as it was. -/
theorem all_or_nothing :
    (∀ (s : Store) (documents : List Document) (es : List Entry),
      Store.applyInPlace documents es s
          = (match s.applyBatch documents es with
            | .ok (s', n) => .ok n s'
            | .error fault => .error fault s) ∧
        ((∃ fault, s.applyBatch documents es = .error fault)
          ↔ ∃ e ∈ es, e.collection = "" ∨ e.key = "" ∨ e.timestamp.node = "") ∧
        ∀ s' n, s.applyBatch documents es = .ok (s', n) →
          s' = { (documents.foldl Store.putDocument s).applyAll es with
            feed := s.feed.publish (documents.map (·.collection) ++ es.map (·.collection)) }) ∧
      ∀ (r : Responder) (ws : List WireEntry),
        answerInPlace ws r.database
            = (match r.answer (.pushRequest ws) with
              | (.ok m, r') => .ok m r'.database
              | (.error e, r') => .error e r'.database) ∧
          ((∃ es, ws.map WireEntry.toEntry = es.map .ok ∧ r.database.Takes es ∧
              r.answer (.pushRequest ws)
                = (.ok (.acknowledgement true none), { r with database := r.database.taking es })) ∨
            (∃ es, ws.map WireEntry.toEntry = es.map .ok ∧ ¬ r.database.Takes es ∧
              ∃ fault, r.database.applyRemote es = .error fault ∧
                r.answer (.pushRequest ws) = (.ok (.acknowledgement false (some fault.message)), r)) ∨
            ((∃ w ∈ ws, ∀ e, w.toEntry ≠ .ok e) ∧
              ∃ detail, r.answer (.pushRequest ws) = (.error (.protocol (.malformedEntry detail)), r))) := by
  refine ⟨fun s documents es => ⟨s.applyInPlace_eq documents es, s.refused_iff documents es, ?_⟩, ?_⟩
  · intro s' n hbatch
    obtain ⟨-, hs', -⟩ := Store.eq_of_applyBatch hbatch
    exact hs'
  refine fun r ws => ⟨r.answerInPlace_eq ws, ?_⟩
  rw [answer]
  rcases WireEntry.toEntries_cases ws with ⟨es, hmap, hes⟩ | ⟨hunread, detail, hws⟩
  · rw [hes]
    by_cases htakes : r.database.Takes es
    · obtain ⟨n, htaken⟩ := Database.applyRemote_of_takes htakes
      refine Or.inl ⟨es, hmap, htakes, ?_⟩
      dsimp only
      rw [accept, htaken]
    · obtain ⟨fault, hrefused⟩ := Database.exists_applyRemote_eq_error htakes
      refine Or.inr (Or.inl ⟨es, hmap, htakes, fault, hrefused, ?_⟩)
      dsimp only
      rw [accept, hrefused]
  · refine Or.inr (Or.inr ⟨hunread, detail, ?_⟩)
    rw [hws]

end Responder

end DocMesh
