/-
# Nodes on their way

A node that takes pages of what another one has beyond its log is on its way: it has what it had before, and of what
the other one has beyond it the part up to its own last timestamp. Pages end between two timestamps, so what is left
to be taken is told by that timestamp alone.

Main statements:

* `Partway.trans` : a part of what is left is a part of the whole;
* `Partway.eq_whole` : where nothing is left the part is the whole;
* `partway_of_page` : a page that is read and applied is such a part.
-/
import DocMesh.Proofs.Sync.Effect

namespace DocMesh

/-! ## Entries that can be delivered -/

/-- A peer can read the entry, and a store accepts what was read. -/
def Entry.Deliverable (e : Entry) : Prop :=
  (WireEntry.ofEntry e).toEntry = .ok e.carried ∧ Store.entryFault? e.carried = none

namespace Database

variable {db db' : Database} {es as : List Entry} {n : Summary}

/-- Entries that were read and applied can be delivered. -/
theorem deliverable_of_applyRemote (hfault : db.storage.fault = none)
    (has : WireEntry.toEntries (es.map .ofEntry) = .ok as) (hok : db.applyRemote as = .ok (db', n)) :
    ∀ e ∈ es, e.Deliverable := by
  have hread := Entry.toEntry_eq_ok has
  have hcarried : as = es.map Entry.carried := Entry.toEntries_map_ofEntry has
  intro e he
  refine ⟨hread e he, ?_⟩
  have hmem : e.carried ∈ as := by
    rw [hcarried]
    exact List.mem_map_of_mem he
  rw [Database.applyRemote, if_neg] at hok
  · split at hok
    · rename_i hb
      obtain ⟨s, hs, _⟩ := applyBatch_eq_ok hfault hb
      exact (Store.eq_of_applyBatch_nil hs).1 e.carried hmem
    · cases hok
  · intro hempty
    rw [List.isEmpty_iff.1 hempty] at hmem
    cases hmem

/-- Entries that can be delivered are applied. -/
theorem exists_applyRemote (hfault : db.storage.fault = none) (h : ∀ e ∈ es, e.Deliverable) :
    ∃ db' n, db.applyRemote (es.map Entry.carried) = .ok (db', n) := by
  have hvalid : ∀ e ∈ es.map Entry.carried, Store.entryFault? e = none := by
    intro e he
    obtain ⟨a, ha, rfl⟩ := List.mem_map.1 he
    exact (h a ha).2
  rw [Database.applyRemote, applyBatch, Storage.update, hfault]
  dsimp only
  rw [Store.applyBatch_nil_of_valid _ hvalid]
  split
  · exact ⟨_, _, rfl⟩
  · exact ⟨_, _, rfl⟩

end Database

/-! ## Stores that are on their way -/

namespace Store

variable {s : Store} {e : Entry} {since : Timestamp} {budget : Nat}

theorem latest_of_getLast? (h : s.log.toList.getLast? = some e) : s.latest = e.timestamp := by
  rw [latest, h]

/-- Behind a page there are fewer entries. -/
theorem length_entriesAfter_of_page (h : (Entry.page budget (s.entriesAfter since)).getLast? = some e) :
    (s.entriesAfter e.timestamp).length < (s.entriesAfter since).length := by
  have hsplit := congrArg List.length (entriesAfter_of_page h).2
  have hpage : 0 < (Entry.page budget (s.entriesAfter since)).length :=
    List.length_pos_of_mem (List.mem_of_getLast? h)
  rw [List.length_append] at hsplit
  omega

end Store

namespace Storage

variable {s t : Store} {p q : Storage} {since : Timestamp}

/-- The storage works and holds the store `s` with a part of what `t` has beyond it: all of it up to the last timestamp
that is in the log now. -/
def Partway (s t : Store) (p : Storage) : Prop :=
  ∃ es f, p = ⟨{ s.applyAll (es.map Entry.carried) with feed := f }, none⟩ ∧
    (∀ e ∈ es, e.Deliverable) ∧ t.entriesAfter s.latest = es ++ t.entriesAfter p.store.latest

/-- Nothing was taken yet. -/
theorem Partway.refl (hp : p = ⟨s, none⟩) (t : Store) : p.Partway s t := by
  subst hp
  exact ⟨[], s.feed, rfl, List.forall_mem_nil _, rfl⟩

theorem Partway.eq_mk (h : p.Partway s t) : p = ⟨p.store, none⟩ := by
  obtain ⟨es, f, rfl, _⟩ := h
  rfl

/-- What was taken is at the end of the log. -/
theorem toList_log_applyAll_carried {es rest : List Entry} (h : t.entriesAfter s.latest = es ++ rest) :
    (s.applyAll (es.map Entry.carried)).log.toList = s.log.toList ++ es.map Entry.carried := by
  apply Store.toList_log_applyAll
  have hlog := s.ascending_append_beyond t
  rw [Store.beyond, h, List.map_append, ← List.append_assoc] at hlog
  exact (List.pairwise_append.1 hlog).1

/-- Nothing that was taken is later than the other log. -/
theorem le_latest_of_carried {es rest : List Entry} (h : t.entriesAfter s.latest = es ++ rest)
    {e : Entry} (he : e ∈ es.map Entry.carried) : e.timestamp ≤ t.latest := by
  obtain ⟨a, ha, rfl⟩ := List.mem_map.1 he
  have hmem : a ∈ t.entriesAfter s.latest := by
    rw [h]
    exact List.mem_append_left _ ha
  rw [Entry.timestamp_carried]
  exact Store.le_latest (Store.mem_entriesAfter.1 hmem).1

/-- The last timestamp does not go back. -/
theorem Partway.latest_le (h : p.Partway s t) : s.latest ≤ p.store.latest := by
  obtain ⟨es, f, rfl, -, hsplit⟩ := h
  rcases hes : es with _ | ⟨e, rest⟩
  · exact Std.le_refl s.latest
  have hmem : e ∈ es := by
    rw [hes]
    exact List.mem_cons_self
  have hafter : e ∈ t.entriesAfter s.latest := by
    rw [hsplit]
    exact List.mem_append_left _ hmem
  have hlog : e.carried ∈ (s.applyAll (es.map Entry.carried)).log.toList := by
    rw [toList_log_applyAll_carried hsplit]
    exact List.mem_append_right _ (List.mem_map_of_mem hmem)
  have hle := Store.le_latest hlog
  rw [Entry.timestamp_carried] at hle
  rw [← hes]
  exact Std.le_of_lt (Std.lt_of_lt_of_le (Store.mem_entriesAfter.1 hafter).2 hle)

/-- Beyond the other log there is still what was there. -/
theorem Partway.entriesAfter (h : p.Partway s t) (hle : t.latest ≤ since) :
    p.store.entriesAfter since = s.entriesAfter since := by
  obtain ⟨es, f, rfl, -, hsplit⟩ := h
  apply Store.entriesAfter_applyAll
  intro e he
  exact Std.le_trans (le_latest_of_carried hsplit he) hle

/-- A part of what is left is a part of the whole. -/
theorem Partway.trans {p' : Storage} (hp : p.Partway s t) (hq : q.Partway t s)
    (hp' : p'.Partway p.store q.store) : p'.Partway s t := by
  have hleft : q.store.entriesAfter p.store.latest = t.entriesAfter p.store.latest :=
    hq.entriesAfter hp.latest_le
  have hleft' : q.store.entriesAfter p'.store.latest = t.entriesAfter p'.store.latest :=
    hq.entriesAfter (Std.le_trans hp.latest_le hp'.latest_le)
  obtain ⟨es, f, rfl, hes, hsplit⟩ := hp
  obtain ⟨fs, g, rfl, hfs, hsplit'⟩ := hp'
  refine ⟨es ++ fs, g, ?_, ?_, ?_⟩
  · rw [List.map_append, Store.applyAll_append, Store.applyAll_feed]
  · intro e he
    exact (List.mem_append.1 he).elim (hes e) (hfs e)
  · rw [hsplit, ← hleft, hsplit', hleft', List.append_assoc]

/-- What is left is a part of the whole. -/
theorem Partway.mem_of_mem_entriesAfter {e : Entry} (hp : p.Partway s t) (hq : q.Partway t s)
    (he : e ∈ q.store.entriesAfter p.store.latest) : e ∈ t.entriesAfter s.latest := by
  rw [hq.entriesAfter hp.latest_le] at he
  obtain ⟨es, f, _, _, hsplit⟩ := hp
  rw [hsplit]
  exact List.mem_append_right es he

/-- Where nothing is left the part is the whole. -/
theorem Partway.eq_whole (hp : p.Partway s t) (hq : q.Partway t s)
    (hrest : q.store.entriesAfter p.store.latest = []) :
    (∃ f, p = ⟨{ s.applyAll ((t.entriesAfter s.latest).map Entry.carried) with feed := f }, none⟩) ∧
      ∀ e ∈ t.entriesAfter s.latest, e.Deliverable := by
  rw [hq.entriesAfter hp.latest_le] at hrest
  obtain ⟨es, f, hp, hes, hsplit⟩ := hp
  rw [hrest, List.append_nil] at hsplit
  rw [hsplit]
  exact ⟨⟨f, hp⟩, hes⟩

/-! ## Taking a page -/

variable {db db' : Database} {as : List Entry} {last : Entry} {budget : Nat} {n : Summary}

/-- A page of what is beyond the log that is read and applied. -/
theorem partway_of_page (hdb : db.storage = ⟨s, none⟩)
    (hlast : (Entry.page budget (t.entriesAfter s.latest)).getLast? = some last)
    (has : WireEntry.toEntries ((Entry.page budget (t.entriesAfter s.latest)).map .ofEntry) = .ok as)
    (hok : db.applyRemote as = .ok (db', n)) :
    db'.storage.Partway s t ∧ db'.storage.store.latest = last.timestamp := by
  have hfault : db.storage.fault = none := congrArg Storage.fault hdb
  obtain ⟨_, hsplit⟩ := Store.entriesAfter_of_page hlast
  obtain ⟨f, hf⟩ := Database.applyRemote_eq_ok hfault hok
  rw [hdb, Entry.toEntries_map_ofEntry has] at hf
  have hlog : db'.storage.store.log.toList
      = s.log.toList ++ (Entry.page budget (t.entriesAfter s.latest)).map Entry.carried := by
    rw [hf]
    exact toList_log_applyAll_carried hsplit
  have hlatest : db'.storage.store.latest = last.timestamp := by
    rw [← Entry.timestamp_carried last]
    apply Store.latest_of_getLast?
    rw [hlog, List.getLast?_append, List.getLast?_map, hlast]
    rfl
  refine ⟨⟨_, f, hf, Database.deliverable_of_applyRemote hfault has hok, ?_⟩, hlatest⟩
  rw [hlatest]
  exact hsplit

end Storage

end DocMesh
