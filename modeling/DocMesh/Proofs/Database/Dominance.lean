/-
# Local writes come last

A local write is stamped later than everything its node knows. It goes to the end of the log and to its
document, never to be ignored, however the wall clock of the node was set before and whatever the node has
received.

Main statements:

* `lt_of_within` : entries that the clock is not behind are before a timestamp with time left;
* `write_appended` : a local write of a sound database comes last in the log;
* `local_writes_dominate` : so it is in every run, and a write or deletion can be read at once.
-/
import DocMesh.Proofs.Database.Run

namespace DocMesh

/-! ## What a new entry does to a store -/

namespace Store

variable {r : Resolver} {s : Store} {e : Entry} {t : Timestamp}

/-- The timestamp is later than all that the store holds. -/
structure Beyond (s : Store) (t : Timestamp) : Prop where
  log : ∀ a ∈ s.log.toList, a.timestamp < t
  documents : ∀ d ∈ s.documents.toList, d.updatedAt < t

/-- In a stamped store the documents are not later than the log. -/
theorem Stamped.beyond (hs : Stamped s) (h : ∀ a ∈ s.log.toList, a.timestamp < t) : s.Beyond t where
  log := h
  documents d hd := by
    obtain ⟨a, ha, hstamp, _⟩ := hs.present (Ordered.find?_of_mem hd)
    rw [hstamp]
    exact h a ha.1

theorem Beyond.updatedAt_lt (h : s.Beyond t) (id : DocumentId) :
    ∀ d ∈ s.documents.find? id, d.updatedAt < t := by
  intro d hd
  exact h.documents d (Ordered.mem_of_find? hd)

/-- An entry later than the log goes to its end. -/
theorem Beyond.log_applyEntry (h : s.Beyond e.timestamp) :
    (s.applyEntry e).log.toList = s.log.toList ++ [e] := by
  rw [Store.log_applyEntry]
  apply Ordered.toList_insertNew_of_lt
  intro a ha
  rw [EntryId.compare_def, Ordering.then_eq_lt]
  exact Or.inl (h.log a ha)

/-- An entry later than all else is counted as applied and as appended. -/
theorem Beyond.countEntry (h : s.Beyond e.timestamp) (n : Summary) :
    s.countEntry n e = ⟨n.applied + 1, n.ignored, n.appended + 1⟩ := by
  have hnew : s.log.contains e.id = false := by
    rw [Ordered.contains, Option.isSome_eq_false_iff, Option.isNone_iff_eq_none,
      Ordered.find?_eq_none_iff]
    intro a ha hid
    have hlt := h.log a ha
    injection hid with ht
    rw [ht] at hlt
    exact Std.lt_irrefl hlt
  obtain ⟨d, hd⟩ := Resolver.exists_apply_of_lt s.resolver (h.updatedAt_lt e.documentId)
  rw [Store.countEntry, hnew, hd]
  rfl

/-- What a batch does that consists of one entry. -/
theorem applyBatch_singleton (s : Store) (hvalid : entryFault? e = none) :
    s.applyBatch [] [e] = .ok ({ s.applyEntry e with feed := s.feed.publish [e.collection] },
      s.countEntry {} e) := by
  rw [applyBatch_nil_of_valid]
  · rfl
  · intro a ha
    rwa [List.mem_singleton.1 ha]

end Store

/-! ## Local writes -/

namespace Database

variable {r : Resolver} {db db' : Database} {collection key : String} {operation : Operation}
  {payload : Option Json} {content : Json} {now : Int64} {t : Timestamp} {e : Entry}

/-- What the clock is not behind is before a timestamp that it issues, if there is time left. -/
theorem lt_of_within (hw : e.timestamp.Within db.clock.last)
    (ht : (db.tick now).1.physical < Int64.maxValue) : e.timestamp < (db.tick now).1 := by
  have hlast : db.clock.last < (db.tick now).1 := Clock.lt_next ht
  -- only where physical time has run out can the clock be behind
  rcases hw with hle | hmax
  · exact Std.lt_of_le_of_lt hle hlast
  · have hle := Timestamp.physical_le_of_le (Std.le_of_lt hlast)
    rw [hmax] at hle
    exact absurd ht (Int64.not_lt.2 hle)

theorem Sound.beyond (h : Sound r db) (ht : (db.tick now).1.physical < Int64.maxValue) :
    db.storage.store.Beyond (db.tick now).1 := by
  apply h.grown.stamped.beyond
  intro e he
  exact lt_of_within (h.clock e he) ht

/-- The entry is later than all that the first database holds, and the second one is the first with this entry
applied and appended to the log. -/
structure Appended (db db' : Database) (e : Entry) : Prop where
  beyond : db.storage.store.Beyond e.timestamp
  log_eq : db'.storage.store.log.toList = db.storage.store.log.toList ++ [e]
  batch_eq : db.storage.store.applyBatch [] [e]
    = .ok (db'.storage.store, { applied := 1, ignored := 0, appended := 1 })

/-- A local write of a sound database is the last entry of its log, and leaves the document that the resolver makes
of it. -/
theorem write_appended (h : Sound r db)
    (hw : db.write collection key operation payload now = (.ok t, db'))
    (ht : t.physical < Int64.maxValue) :
    Appended db db' ⟨collection, key, operation, payload, t⟩ ∧ db'.storage.fault = none ∧
      db'.storage.store.document? collection key
        = (r.resolve (db.storage.store.document? collection key)
            ⟨collection, key, operation, payload, t⟩).after
              (db.storage.store.document? collection key) := by
  obtain ⟨rfl, n, hb⟩ := write_eq_ok hw
  have hbeyond := h.beyond ht
  obtain ⟨s, hs, rfl⟩ := applyBatch_eq_ok (h.tick now).fault hb
  obtain ⟨hvalid, _⟩ := Store.eq_of_applyBatch_nil hs
  have hone := Store.applyBatch_singleton db.storage.store (hvalid _ List.mem_cons_self)
  rw [hbeyond.countEntry {}] at hone
  -- the batch of one entry did what is said of such batches, so its result is known
  have heq := hs.symm.trans hone
  injection heq with heq
  injection heq with heq _
  subst heq
  refine ⟨⟨hbeyond, hbeyond.log_applyEntry, hone⟩, rfl, ?_⟩
  rw [← h.grown.resolver_eq]
  exact (Store.find?_applyEntry _ _ ⟨collection, key⟩).trans (if_pos rfl)

theorem get_eq (hfault : db.storage.fault = none) (collection key : String) :
    db.get collection key
      = .ok ((db.storage.store.document? collection key).filter (!·.deleted)) := by
  rw [get, Storage.read, hfault]

/-- Where the newest write wins, a document can be read as it was written. -/
theorem get_put (h : Sound .lastWriteWins db) (hw : db.put collection key content now = (.ok t, db'))
    (ht : t.physical < Int64.maxValue) :
    db'.get collection key = .ok (some ⟨collection, key, content, t, false⟩) := by
  obtain ⟨happ, hfault, hdoc⟩ := write_appended h hw ht
  have hres : Resolver.lastWriteWins.resolve (db.storage.store.document? collection key)
      ⟨collection, key, .put, some content, t⟩ = .apply ⟨collection, key, content, t, false⟩ :=
    Resolver.resolve_lastWriteWins_newer (happ.beyond.updatedAt_lt ⟨collection, key⟩)
  rw [get_eq hfault, hdoc, hres]
  rfl

/-- A deleted document cannot be read. -/
theorem get_delete (h : Sound r db) (hw : db.delete collection key now = (.ok t, db'))
    (ht : t.physical < Int64.maxValue) : db'.get collection key = .ok none := by
  obtain ⟨happ, hfault, hdoc⟩ := write_appended h hw ht
  obtain ⟨d, hd, hdeleted⟩ : ∃ d, r.resolve (db.storage.store.document? collection key)
      ⟨collection, key, .delete, none, t⟩ = .apply d ∧ d.deleted = true :=
    Resolver.exists_deleted_of_delete r (happ.beyond.updatedAt_lt ⟨collection, key⟩) rfl
  rw [get_eq hfault, hdoc, hd, Resolution.after, Option.filter_some, hdeleted]
  rfl

/-! ## Runs -/

/-- **Local writes dominate.** Let a database be opened at a positive time over a store that batches have made,
and let the program put, delete, tick and apply remote entries at whatever times. A local write that succeeds then
is stamped later than the log and all documents, and is applied and appended to the log. Where the newest write
wins, a document that was put can be read at once as it was written; with either resolver, one that was deleted
cannot be read. All this holds as long as physical time has not run out. -/
theorem local_writes_dominate {s : Store} {node : String} {start : Int64} {db : Database}
    (hs : Store.Grown r s) (hstart : 0 < start)
    (hopen : Database.open node { store := s } start = .ok db) (actions : List Action)
    (collection key : String) (now : Int64) (t : Timestamp) (db' : Database)
    (ht : t.physical < Int64.maxValue) :
    (∀ content, (db.run actions).put collection key content now = (.ok t, db') →
      Appended (db.run actions) db' (.put collection key content t) ∧
        (r = .lastWriteWins →
          db'.get collection key = .ok (some ⟨collection, key, content, t, false⟩))) ∧
    ((db.run actions).delete collection key now = (.ok t, db') →
      Appended (db.run actions) db' (.delete collection key t) ∧ db'.get collection key = .ok none) := by
  have hsound : Sound r (db.run actions) := sound_run hs hstart hopen actions
  constructor
  · intro content hw
    refine ⟨(write_appended hsound hw ht).1, ?_⟩
    rintro rfl
    exact get_put hsound hw ht
  · intro hw
    exact ⟨(write_appended hsound hw ht).1, get_delete hsound hw ht⟩

/-- A node whose wall clock stands still behind the log that it was opened with, and that hears of a still later
entry before it writes. -/
theorem local_writes_dominate_stalled :
    let s : Store := { Store.applyAll {} [.put "notes" "x" .null ⟨5000, 7, "b"⟩] with
      feed := ({} : ChangeFeed).publish ["notes"] }
    let late : Entry := .put "notes" "x" (.ofInt 1) ⟨9000, 0, "b"⟩
    ∃ db, Database.open "a" { store := s } 100 = .ok db ∧
      let now := db.run [.tick 200, .applyRemote [late], .delete "notes" "y" 100]
      Appended now (now.put "notes" "x" (.ofInt 2) 100).2
          (.put "notes" "x" (.ofInt 2) ⟨9000, 2, "a"⟩) ∧
        (now.put "notes" "x" (.ofInt 2) 100).2.get "notes" "x"
          = .ok (some ⟨"notes", "x", .ofInt 2, ⟨9000, 2, "a"⟩, false⟩) ∧
        Appended now (now.delete "notes" "x" 100).2 (.delete "notes" "x" ⟨9000, 2, "a"⟩) ∧
        (now.delete "notes" "x" 100).2.get "notes" "x" = .ok none := by
  intro s late
  have hs : Store.Grown .lastWriteWins s :=
    Store.Grown.empty.batch (Store.applyBatch_nil_of_valid {} (by decide))
  have hstart : (0 : Int64) < 100 := by decide
  have hopen : Database.open "a" { store := s } 100 = .ok ⟨{ store := s }, ⟨"a", ⟨5000, 7, "b"⟩⟩⟩ := rfl
  refine ⟨_, hopen, ?_⟩
  intro now
  have hsound : Sound .lastWriteWins now := sound_run hs hstart hopen _
  have htick : (now.tick 100).1 = ⟨9000, 2, "a"⟩ := by decide +kernel
  have hput : now.put "notes" "x" (.ofInt 2) 100 = _ :=
    hsound.write_ok (by decide) (by decide) .put (some (.ofInt 2)) 100
  have hdelete : now.delete "notes" "x" 100 = _ :=
    hsound.write_ok (by decide) (by decide) .delete none 100
  rw [htick] at hput hdelete
  have h := local_writes_dominate hs hstart hopen
    [.tick 200, .applyRemote [late], .delete "notes" "y" 100] "notes" "x" 100 ⟨9000, 2, "a"⟩
  obtain ⟨hwritten, hget⟩ := (h (now.put "notes" "x" (.ofInt 2) 100).2 (by decide)).1 (.ofInt 2) hput
  obtain ⟨hdeleted, hgone⟩ := (h (now.delete "notes" "x" 100).2 (by decide)).2 hdelete
  exact ⟨hwritten, hget rfl, hdeleted, hgone⟩

end Database

end DocMesh
