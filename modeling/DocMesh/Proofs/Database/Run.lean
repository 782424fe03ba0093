/-
# Runs of a database

What a program does with an open database: it puts and deletes documents, applies what peers have sent and asks
for timestamps, at whatever times its wall clock shows. Through all of this the storage stays a grown store,
and the clock is not behind the log unless physical time has run out.

Main statements:

* `write_eq_ok` : what a local write that succeeds has done;
* `Intact.perform` : every action keeps a database intact;
* `Sound.perform` : every action keeps a database sound;
* `sound_run` : a database that was opened at a positive time stays sound.
-/
import DocMesh.Proofs.Store.Extension
import DocMesh.Proofs.Store.Newest
import DocMesh.Store.Database

namespace DocMesh

/-! ## When time runs out -/

/-- `t` is not after `u`, unless physical time has run out at `u`. -/
def Timestamp.Within (t u : Timestamp) : Prop := t ≤ u ∨ u.physical = Int64.maxValue

namespace Timestamp

variable {t u v : Timestamp}

/-- The greatest physical time is not exceeded. -/
theorem physical_eq_of_le (hle : t ≤ u) (h : t.physical = Int64.maxValue) :
    u.physical = Int64.maxValue := by
  have hp := physical_le_of_le hle
  rw [h] at hp
  exact Int64.le_antisymm (Int64.le_iff_toInt_le.2 u.physical.toInt_le) hp

theorem Within.trans (htu : t.Within u) (huv : u.Within v) : t.Within v := by
  rcases huv with huv | hv
  · rcases htu with htu | hu
    · exact Or.inl (Std.le_trans htu huv)
    · exact Or.inr (physical_eq_of_le huv hu)
  · exact Or.inr hv

/-- What the next timestamp leaves behind. -/
theorem within_next (node : String) (last : Timestamp) (now : Int64) :
    last.Within (Clock.next node last now) := by
  by_cases h : (Clock.next node last now).physical < Int64.maxValue
  · exact Or.inl (Std.le_of_lt (Clock.lt_next h))
  · refine Or.inr (Int64.le_antisymm ?_ (Int64.not_lt.1 h))
    exact Int64.le_iff_toInt_le.2 (Int64.toInt_le _)

end Timestamp

namespace Database

variable {r : Resolver} {db db' : Database} {collection key : String} {operation : Operation}
  {payload : Option Json} {now : Int64} {t : Timestamp} {es : List Entry} {n : Summary}

/-! ## Writing -/

/-- A batch goes to the store, as long as the storage can be used. -/
theorem applyBatch_eq_ok (hfault : db.storage.fault = none) (h : db.applyBatch [] es = .ok (db', n)) :
    ∃ s, db.storage.store.applyBatch [] es = .ok (s, n) ∧ db' = { db with storage := ⟨s, none⟩ } := by
  rw [applyBatch, Storage.update, hfault] at h
  dsimp only at h
  rcases hs : db.storage.store.applyBatch [] es with fault | ⟨s, m⟩
  · rw [hs] at h
    cases h
  · rw [hs] at h
    cases h
    exact ⟨s, rfl, rfl⟩

/-- Entries of a peer are applied as a batch, and then observed. -/
theorem applyRemote_eq_ok_iff :
    db.applyRemote es = .ok (db', n) ↔
      es = [] ∧ db' = db ∧ n = {} ∨
        es ≠ [] ∧ ∃ db'', db.applyBatch [] es = .ok (db'', n) ∧
          db' = { db'' with clock := db''.clock.observeAll (es.map (·.timestamp)) } := by
  rw [applyRemote]
  cases es with
  | nil => simp [eq_comm]
  | cons e es =>
    rw [List.isEmpty_cons, if_neg Bool.false_ne_true]
    rcases hb : db.applyBatch [] (e :: es) with fault | ⟨db'', m⟩
    · simp
    · simp only [Except.ok.injEq, Prod.mk.injEq, reduceCtorEq, false_and, false_or, ne_eq,
        not_false_eq_true, true_and]
      constructor
      · rintro ⟨rfl, rfl⟩
        exact ⟨db'', ⟨rfl, rfl⟩, rfl⟩
      · rintro ⟨_, ⟨rfl, rfl⟩, rfl⟩
        exact ⟨rfl, rfl⟩

/-- Entries of a peer that are taken are applied one by one. -/
theorem applyRemote_eq_ok (hfault : db.storage.fault = none) (h : db.applyRemote es = .ok (db', n)) :
    ∃ f, db'.storage = ⟨{ db.storage.store.applyAll es with feed := f }, none⟩ := by
  rcases applyRemote_eq_ok_iff.1 h with ⟨rfl, rfl, -⟩ | ⟨-, db'', hb, rfl⟩
  · rw [← hfault]
    exact ⟨db'.storage.store.feed, rfl⟩
  · obtain ⟨s, hs, rfl⟩ := applyBatch_eq_ok hfault hb
    obtain ⟨_, rfl⟩ := Store.eq_of_applyBatch_nil hs
    exact ⟨_, rfl⟩

/-- The clock ticks for every local write with a key. -/
theorem write_eq (db : Database) (collection : String) (operation : Operation) (payload : Option Json)
    (now : Int64) (hkey : key ≠ "") :
    db.write collection key operation payload now
      = match (db.tick now).2.applyBatch [] [⟨collection, key, operation, payload, (db.tick now).1⟩] with
        | .ok (db', _) => (.ok (db.tick now).1, db')
        | .error e => (.error e, (db.tick now).2) := by
  have hne : key.isEmpty = false := by
    rw [← Bool.not_eq_true, String.isEmpty_iff]
    exact hkey
  rw [write, hne]
  rfl

/-- What a local write leaves behind: it does nothing without a key, and else the clock ticks, and the entry is applied
or refused. -/
theorem write_cases (db : Database) (collection key : String) (operation : Operation) (payload : Option Json)
    (now : Int64) :
    (db.write collection key operation payload now).2 = db ∨
      (db.write collection key operation payload now).2 = (db.tick now).2 ∨
        ∃ n, (db.tick now).2.applyBatch [] [⟨collection, key, operation, payload, (db.tick now).1⟩]
          = .ok ((db.write collection key operation payload now).2, n) := by
  by_cases hkey : key = ""
  · subst hkey
    exact Or.inl rfl
  · rw [write_eq db collection operation payload now hkey]
    split
    · rename_i db' n hb
      exact Or.inr (Or.inr ⟨n, hb⟩)
    · exact Or.inr (Or.inl rfl)

/-- A local write that succeeds is stamped by the clock and applied as a batch of its own. -/
theorem write_eq_ok (h : db.write collection key operation payload now = (.ok t, db')) :
    t = (db.tick now).1 ∧
      ∃ n, (db.tick now).2.applyBatch [] [⟨collection, key, operation, payload, t⟩] = .ok (db', n) := by
  by_cases hkey : key = ""
  · subst hkey
    cases h
  · rw [write_eq db collection operation payload now hkey] at h
    split at h
    · rename_i db'' n hb
      injection h with ht hdb
      injection ht with ht
      subst ht hdb
      exact ⟨rfl, n, hb⟩
    · cases h

/-! ## Actions -/

/-- What a program does with its database. -/
inductive Action where
  /-- Writes a document. -/
  | put (collection key : String) (content : Json) (now : Int64)
  /-- Deletes a document. -/
  | delete (collection key : String) (now : Int64)
  /-- Applies entries of a peer. -/
  | applyRemote (entries : List Entry)
  /-- Takes a timestamp. -/
  | tick (now : Int64)
  deriving Inhabited

/-- The database after an action, whether it has succeeded or failed. -/
def perform (db : Database) : Action → Database
  | .put collection key content now => (db.put collection key content now).2
  | .delete collection key now => (db.delete collection key now).2
  | .applyRemote entries =>
    match db.applyRemote entries with
    | .ok (db', _) => db'
    | .error _ => db
  | .tick now => (db.tick now).2

/-- The database after the given actions. -/
def run (db : Database) (actions : List Action) : Database := actions.foldl perform db

/-! ## Intact databases -/

/-- The storage works and holds a grown store. -/
structure Intact (r : Resolver) (db : Database) : Prop where
  fault : db.storage.fault = none
  grown : Store.Grown r db.storage.store

theorem Intact.applyBatch (h : Intact r db) (hb : db.applyBatch [] es = .ok (db', n)) : Intact r db' := by
  obtain ⟨s, hs, rfl⟩ := applyBatch_eq_ok h.fault hb
  exact ⟨rfl, h.grown.batch hs⟩

theorem Intact.write (h : Intact r db) (collection key : String) (operation : Operation)
    (payload : Option Json) (now : Int64) : Intact r (db.write collection key operation payload now).2 := by
  have htick : Intact r (db.tick now).2 := ⟨h.fault, h.grown⟩
  rcases write_cases db collection key operation payload now with hdb | hdb | ⟨n, hb⟩
  · rwa [hdb]
  · rwa [hdb]
  · exact htick.applyBatch hb

theorem Intact.applyRemote (h : Intact r db) (hb : db.applyRemote es = .ok (db', n)) : Intact r db' := by
  rcases applyRemote_eq_ok_iff.1 hb with ⟨-, rfl, -⟩ | ⟨-, db'', hb', rfl⟩
  · exact h
  · have hbatch : Intact r db'' := h.applyBatch hb'
    exact ⟨hbatch.fault, hbatch.grown⟩

/-- Every action keeps a database intact. -/
theorem Intact.perform (h : Intact r db) (a : Action) : Intact r (db.perform a) := by
  cases a with
  | put collection key content now => exact h.write collection key .put (some content) now
  | delete collection key now => exact h.write collection key .delete none now
  | applyRemote es =>
    rw [Database.perform]
    split
    · rename_i hb
      exact h.applyRemote hb
    · exact h
  | tick now => exact ⟨h.fault, h.grown⟩

/-- A database that is opened over a grown store is intact. -/
theorem intact_open {s : Store} {node : String} (hs : Store.Grown r s)
    (h : Database.open node { store := s } now = .ok db) : Intact r db := by
  rw [Database.open] at h
  split at h
  · cases h
  · cases h
    exact ⟨rfl, hs⟩

/-! ## Soundness -/

/-- The node has a name, the storage works and holds a grown store, and the clock is not behind the log unless
physical time has run out. -/
structure Sound (r : Resolver) (db : Database) : Prop where
  named : db.node ≠ ""
  fault : db.storage.fault = none
  grown : Store.Grown r db.storage.store
  clock : ∀ e ∈ db.storage.store.log.toList, e.timestamp.Within db.clock.last

theorem Sound.tick (h : Sound r db) (now : Int64) : Sound r (db.tick now).2 where
  named := h.named
  fault := h.fault
  grown := h.grown
  clock e he := (h.clock e he).trans (Timestamp.within_next _ _ now)

/-- A batch keeps a database sound if the clock is moved past its entries. -/
theorem Sound.applyBatch (h : Sound r db) (hb : db.applyBatch [] es = .ok (db', n)) {c : Clock}
    (hnode : c.node = db.node) (hc : db.clock.last.Within c.last) (hes : ∀ e ∈ es, e.timestamp.Within c.last) :
    Sound r { db' with clock := c } := by
  obtain ⟨s, hs, rfl⟩ := applyBatch_eq_ok h.fault hb
  refine ⟨fun hempty => h.named (hnode.symm.trans hempty), rfl, h.grown.batch hs, ?_⟩
  intro e he
  obtain ⟨_, rfl⟩ := Store.eq_of_applyBatch_nil hs
  rcases Store.mem_of_mem_log_applyAll he with he | he
  · exact (h.clock e he).trans hc
  · exact hes e he

theorem Sound.write (h : Sound r db) (collection key : String) (operation : Operation)
    (payload : Option Json) (now : Int64) : Sound r (db.write collection key operation payload now).2 := by
  rcases write_cases db collection key operation payload now with hdb | hdb | ⟨n, hb⟩
  · rwa [hdb]
  · rw [hdb]
    exact h.tick now
  · obtain ⟨s, -, hdb⟩ := applyBatch_eq_ok (h.tick now).fault hb
    rw [hdb] at hb ⊢
    apply (h.tick now).applyBatch hb rfl (Or.inl (Std.le_refl _))
    intro e he
    rw [List.mem_singleton.1 he]
    exact Or.inl (Std.le_refl _)

theorem Sound.applyRemote (h : Sound r db) (hb : db.applyRemote es = .ok (db', n)) : Sound r db' := by
  rcases applyRemote_eq_ok_iff.1 hb with ⟨-, rfl, -⟩ | ⟨-, db'', hb', rfl⟩
  · exact h
  · obtain ⟨s, -, rfl⟩ := applyBatch_eq_ok h.fault hb'
    apply h.applyBatch hb' (db.clock.node_observeAll _) (Or.inl (db.clock.le_observeAll _))
    intro e he
    exact Or.inl (Clock.le_observeAll_of_mem _ (List.mem_map_of_mem he))

/-- Every action keeps a database sound. -/
theorem Sound.perform (h : Sound r db) (a : Action) : Sound r (db.perform a) := by
  cases a with
  | put collection key content now => exact h.write collection key .put (some content) now
  | delete collection key now => exact h.write collection key .delete none now
  | applyRemote es =>
    rw [Database.perform]
    split
    · rename_i hb
      exact h.applyRemote hb
    · exact h
  | tick now => exact h.tick now

theorem Sound.run (h : Sound r db) (actions : List Action) : Sound r (db.run actions) := by
  rw [Database.run]
  induction actions generalizing db with
  | nil => exact h
  | cons a as ih => exact ih (h.perform a)

/-- A local write of a sound database succeeds if the document has a collection and a key. -/
theorem Sound.write_ok (h : Sound r db) (hcollection : collection ≠ "") (hkey : key ≠ "")
    (operation : Operation) (payload : Option Json) (now : Int64) :
    db.write collection key operation payload now
      = (.ok (db.tick now).1, (db.write collection key operation payload now).2) := by
  have hvalid : Store.entryFault? ⟨collection, key, operation, payload, (db.tick now).1⟩ = none := by
    have hnode : (db.tick now).1.node ≠ "" := by
      show (Clock.next db.node db.clock.last now).node ≠ ""
      rw [Clock.node_next]
      exact h.named
    simp [Store.entryFault?, hcollection, hkey, hnode]
  rw [write_eq db collection operation payload now hkey]
  rw [Database.applyBatch, Storage.update, (h.tick now).fault]
  dsimp only
  rw [Store.applyBatch_nil_of_valid _ fun e he => by rwa [List.mem_singleton.1 he]]

/-! ## Opening -/

/-- A database that is opened at a positive time over a grown store is sound. -/
theorem sound_open {s : Store} {node : String} (hs : Store.Grown r s) (hnow : 0 < now)
    (h : Database.open node { store := s } now = .ok db) : Sound r db := by
  rw [Database.open] at h
  split at h
  · cases h
  · rename_i hnode
    cases h
    refine ⟨fun hempty => hnode (String.isEmpty_iff.2 hempty), rfl, hs, ?_⟩
    intro e he
    exact Or.inl (Std.le_trans (Store.le_latest he) (Clock.le_seeded node s.latest hnow))

/-- A database that was opened at a positive time over a grown store stays sound. -/
theorem sound_run {s : Store} {node : String} (hs : Store.Grown r s) (hnow : 0 < now)
    (h : Database.open node { store := s } now = .ok db) (actions : List Action) :
    Sound r (db.run actions) :=
  (sound_open hs hnow h).run actions

end Database

end DocMesh
