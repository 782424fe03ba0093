/-
# The log of a store only grows

Whatever a program does with a store, its log takes in what is delivered and gives up nothing. Of the entries with
one id the first to be delivered stays, and a batch counts truly what it has done. The last timestamp of the log
does not go back, with one exception: a log that is empty reports the timestamp zero, and zero is not the least of
all timestamps.

Main statements:

* `perform_batch`, `exists_perform_peer_eq`, `resolver_perform` : what one change does, and what it leaves alone;
* `log_run` : the log after a run is the log before it and what the run has delivered;
* `latest_lt_iff` : when the last timestamp goes back although the log only grows;
* `history_kept` : what a run keeps, and what its batches count.
-/
import DocMesh.Proofs.Store.Extension
import Mathlib.Data.List.Basic

namespace DocMesh

namespace Store

variable {s s' t : Store} {e : Entry} {es : List Entry} {documents : List Document} {n : Summary}

/-! ## Runs -/

/-- What a program does with a store. -/
inductive Change where
  /-- Applies a batch. What comes from a peer is a batch without documents. -/
  | batch (documents : List Document) (entries : List Entry)
  /-- Writes a document without asking the resolver. -/
  | document (d : Document)
  /-- Registers a peer. -/
  | peer (p : Peer)
  /-- Strikes a peer from the register. -/
  | noPeer (id : String)
  deriving Inhabited

/-- The store after a change. A change that is refused does nothing. -/
def perform (s : Store) : Change → Store
  | .batch documents entries =>
    match s.applyBatch documents entries with
    | .ok (s', _) => s'
    | .error _ => s
  | .document d => s.saveDocument d
  | .peer p =>
    match s.savePeer p with
    | .ok s' => s'
    | .error _ => s
  | .noPeer id => s.removePeer id

/-- The store after the given changes, one after the other. -/
def run (s : Store) (changes : List Change) : Store := changes.foldl perform s

/-- The entries that a change delivers: those of a batch that is not refused. -/
def Change.delivered : Change → List Entry
  | .batch _ entries => if ∀ e ∈ entries, entryFault? e = none then entries else []
  | _ => []

/-- The entries that a run delivers, in the order in which they come. -/
def delivered (changes : List Change) : List Entry := changes.flatMap Change.delivered

/-- A batch writes its documents and applies its entries, or it is refused and does nothing. -/
theorem perform_batch (s : Store) (documents : List Document) (entries : List Entry) :
    s.perform (.batch documents entries)
      = if ∀ e ∈ entries, entryFault? e = none then
          { (documents.foldl putDocument s).applyAll entries with
            feed := s.feed.publish (documents.map (·.collection) ++ entries.map (·.collection)) }
        else s := by
  rw [perform]
  split_ifs with hvalid
  · rw [applyBatch_eq, List.findSome?_eq_none_iff.2 hvalid]
  · obtain ⟨fault, hfault⟩ := (s.exists_applyBatch_eq_error_iff documents entries).2 hvalid
    rw [hfault]

/-- To register a peer changes the register at most. -/
theorem exists_perform_peer_eq (s : Store) (p : Peer) : ∃ peers, s.perform (.peer p) = { s with peers := peers } := by
  rw [perform, savePeer]
  split_ifs with hp
  · rcases p.endpoint with fault | address
    · exact ⟨s.peers, rfl⟩
    · exact ⟨s.peers.insert p, rfl⟩
  · exact ⟨s.peers, rfl⟩

/-- No change replaces the resolver. -/
theorem resolver_perform (s : Store) (c : Change) : (s.perform c).resolver = s.resolver := by
  cases c with
  | batch documents entries =>
    rw [perform_batch]
    split_ifs
    · exact (resolver_applyAll _ entries).trans (resolver_foldl_putDocument s documents)
    · rfl
  | document d => rfl
  | peer p =>
    obtain ⟨peers, hpeers⟩ := s.exists_perform_peer_eq p
    rw [hpeers]
  | noPeer id => rfl

/-! ## The log after a run -/

/-- A change adds to the log what it delivers, and nothing else. -/
theorem log_perform (s : Store) (c : Change) :
    (s.perform c).log = c.delivered.foldl Ordered.insertNew s.log := by
  cases c with
  | batch documents entries =>
    rw [Change.delivered, perform_batch]
    split_ifs
    · exact (log_applyAll _ entries).trans (by rw [log_foldl_putDocument])
    · rfl
  | document d => rfl
  | peer p =>
    obtain ⟨peers, hpeers⟩ := s.exists_perform_peer_eq p
    rw [hpeers]
    rfl
  | noPeer id => rfl

/-- A run adds to the log what it delivers, and nothing else. -/
theorem log_run (s : Store) (changes : List Change) :
    (s.run changes).log = (delivered changes).foldl Ordered.insertNew s.log := by
  induction changes generalizing s with
  | nil => rfl
  | cons c changes ih =>
    rw [delivered, List.flatMap_cons, List.foldl_append, ← log_perform, ← delivered, ← ih]
    rfl

/-- Of all entries with one id the first to be delivered is in the log, unless there was one before. -/
theorem find?_log_run (s : Store) (changes : List Change) (id : EntryId) :
    (s.run changes).log.find? id = (s.log.find? id).or ((delivered changes).find? fun e => e.id = id) := by
  rw [log_run, Ordered.find?_foldl_insertNew]

/-- What is in the log stays there. -/
theorem mem_log_run (changes : List Change) (he : e ∈ s.log.toList) : e ∈ (s.run changes).log.toList := by
  apply Ordered.mem_of_find? (k := e.id)
  rw [find?_log_run, Ordered.find?_of_mem he]
  rfl

/-- What is delivered is valid. -/
theorem entryFault?_eq_none_of_mem_delivered {changes : List Change} (he : e ∈ delivered changes) :
    entryFault? e = none := by
  obtain ⟨c, -, he⟩ := List.mem_flatMap.1 he
  cases c with
  | batch documents entries =>
    rw [Change.delivered] at he
    split_ifs at he with hvalid
    · exact hvalid e he
    · cases he
  | document d => cases he
  | peer p => cases he
  | noPeer id => cases he

/-- What is in the log of a store that was new is valid. -/
theorem entryFault?_eq_none_of_mem_log_run {r : Resolver} {changes : List Change}
    (he : e ∈ (run { resolver := r } changes).log.toList) : entryFault? e = none := by
  have hfound := Ordered.find?_of_mem he
  rw [find?_log_run] at hfound
  exact entryFault?_eq_none_of_mem_delivered (List.mem_of_find?_eq_some hfound)

/-! ## The last timestamp -/

theorem latest_of_log_eq_nil (h : s.log.toList = []) : s.latest = .zero := by
  rw [latest, h]
  rfl

theorem exists_timestamp_eq_latest (h : s.log.toList ≠ []) : ∃ e ∈ s.log.toList, e.timestamp = s.latest := by
  refine ⟨s.log.toList.getLast h, List.getLast_mem h, ?_⟩
  rw [latest, List.getLast?_eq_some_getLast h]

/-- **When the last timestamp goes back.** Where one log holds all entries of another, its last timestamp is less only
if the other log is empty, and all of its own entries are before the timestamp zero. -/
theorem latest_lt_iff (h : ∀ e ∈ s.log.toList, e ∈ t.log.toList) :
    t.latest < s.latest
      ↔ s.log.toList = [] ∧ t.log.toList ≠ [] ∧ ∀ e ∈ t.log.toList, e.timestamp < .zero := by
  constructor
  · intro hlt
    have hs : s.log.toList = [] := by
      by_contra hne
      obtain ⟨e, he, hlatest⟩ := exists_timestamp_eq_latest hne
      rw [← hlatest, ← Std.not_le] at hlt
      exact hlt (le_latest (h e he))
    rw [latest_of_log_eq_nil hs] at hlt
    refine ⟨hs, ?_, fun e he => Std.lt_of_le_of_lt (le_latest he) hlt⟩
    intro ht
    rw [latest_of_log_eq_nil ht] at hlt
    exact Std.lt_irrefl hlt
  · rintro ⟨hs, ht, hbefore⟩
    obtain ⟨e, he, hlatest⟩ := exists_timestamp_eq_latest ht
    rw [latest_of_log_eq_nil hs, ← hlatest]
    exact hbefore e he

/-! ## Counts -/

theorem appended_countEntry (s : Store) (n : Summary) (e : Entry) :
    (s.countEntry n e).appended = if s.log.contains e.id then n.appended else n.appended + 1 := by
  rw [countEntry]
  split <;> rfl

theorem applied_add_ignored_countEntry (s : Store) (n : Summary) (e : Entry) :
    (s.countEntry n e).applied + (s.countEntry n e).ignored = n.applied + n.ignored + 1 := by
  rw [countEntry]
  split
  · exact Nat.add_right_comm n.applied 1 n.ignored
  · exact (Nat.add_assoc n.applied n.ignored 1).symm

/-- One entry makes the log greater by what is counted. -/
theorem size_log_applyEntry (s : Store) (n : Summary) (e : Entry) :
    (s.applyEntry e).log.size + n.appended = s.log.size + (s.countEntry n e).appended := by
  rw [log_applyEntry, Ordered.size_insertNew, appended_countEntry]
  show (if s.log.contains e.id then _ else _) + _ = _
  split <;> omega

/-- Entries make the log greater by what is counted. -/
theorem size_log_applyAll (s : Store) (n : Summary) (es : List Entry) :
    (s.applyAll es).log.size + n.appended = s.log.size + (s.applyEntries n es).2.appended := by
  induction es generalizing s n with
  | nil => rfl
  | cons e es ih =>
    have hentry := s.size_log_applyEntry n e
    have hrest := ih (s.applyEntry e) (s.countEntry n e)
    rw [applyAll_cons, applyEntries]
    omega

/-- Every entry is counted once, as applied or as ignored. -/
theorem applied_add_ignored_applyEntries (s : Store) (n : Summary) (es : List Entry) :
    (s.applyEntries n es).2.applied + (s.applyEntries n es).2.ignored
      = n.applied + n.ignored + es.length := by
  induction es generalizing s n with
  | nil => rfl
  | cons e es ih =>
    rw [applyEntries, ih, applied_add_ignored_countEntry, List.length_cons]
    omega

/-- A batch counts by how much the log has grown, and every entry once. -/
theorem counts_of_applyBatch (h : s.applyBatch documents es = .ok (s', n)) :
    s'.log.size = s.log.size + n.appended ∧ n.applied + n.ignored = es.length := by
  obtain ⟨-, rfl, rfl⟩ := eq_of_applyBatch h
  have hsize := (documents.foldl putDocument s).size_log_applyAll {} es
  have hcount := (documents.foldl putDocument s).applied_add_ignored_applyEntries {} es
  rw [log_foldl_putDocument] at hsize
  exact ⟨hsize, hcount.trans (Nat.zero_add es.length)⟩

/-! ## What a run keeps -/

/-- **The log only grows.** Whatever a program does with a store, all entries stay in the log as they are. The log has
at most one entry of each id, which is found under this id: the one that was there before, or else the first one that
was delivered. The last timestamp goes back exactly when the log was empty and only entries before the timestamp zero
have come. At any time a batch that is applied counts by how much the log grows, and each of its entries once. -/
theorem history_kept (s : Store) (changes : List Change) :
    (∀ e ∈ s.log.toList, e ∈ (s.run changes).log.toList) ∧
      (∀ id, (s.run changes).log.find? id
        = (s.log.find? id).or ((delivered changes).find? fun e => e.id = id)) ∧
      (∀ id e, (s.run changes).log.find? id = some e ↔ e ∈ (s.run changes).log.toList ∧ e.id = id) ∧
      ((s.run changes).latest < s.latest
        ↔ s.log.toList = [] ∧ (s.run changes).log.toList ≠ [] ∧
          ∀ e ∈ (s.run changes).log.toList, e.timestamp < .zero) ∧
      ∀ documents entries s' n, (s.run changes).applyBatch documents entries = .ok (s', n) →
        s'.log.size = (s.run changes).log.size + n.appended ∧ n.applied + n.ignored = entries.length := by
  refine ⟨fun e => mem_log_run changes, find?_log_run s changes, ?_, ?_, ?_⟩
  · intro id e
    constructor
    · intro h
      exact ⟨Ordered.mem_of_find? h, Ordered.key_of_find? h⟩
    · rintro ⟨he, rfl⟩
      exact Ordered.find?_of_mem he
  · exact latest_lt_iff fun e => mem_log_run changes
  · intro documents entries s' n
    exact counts_of_applyBatch

/-- A write and another one with its id, an invalid batch, and a batch with a new entry in it three times. -/
theorem history_kept_collision :
    let p : Entry := .put "notes" "x" (.ofInt 1) ⟨5, 0, "a"⟩
    let q : Entry := .put "notes" "x" (.ofInt 2) ⟨5, 0, "a"⟩
    let d : Entry := .delete "notes" "y" ⟨3, 0, "b"⟩
    let s : Store := { resolver := .recursiveMerge }
    let t := s.run [.batch [] [p, q], .batch [] [d, .delete "" "y" ⟨4, 0, "b"⟩]]
    t.log.toList = [p] ∧
      ∃ t' n, t.applyBatch [] [d, q, d, d] = .ok (t', n) ∧ n = ⟨2, 2, 1⟩ ∧
        t'.log.size = t.log.size + n.appended ∧ n.applied + n.ignored = 4 := by
  intro p q d s t
  have hvalid : ∀ e ∈ [d, q, d, d], entryFault? e = none := by decide
  have hbatch := t.applyBatch_nil_of_valid hvalid
  have hkept := history_kept s [.batch [] [p, q], .batch [] [d, .delete "" "y" ⟨4, 0, "b"⟩]]
  exact ⟨by decide +kernel, _, _, hbatch, by decide +kernel, hkept.2.2.2.2 _ _ _ _ hbatch⟩

/-- The last timestamp can go back: an entry before the timestamp zero is valid, and in an empty log it comes first. -/
theorem latest_goes_back :
    let e : Entry := .put "notes" "x" (.ofInt 1) ⟨-1, 0, "a"⟩
    let s : Store := {}
    s.latest = .zero ∧ (s.run [.batch [] [e]]).latest = e.timestamp ∧
      (s.run [.batch [] [e]]).latest < s.latest := by
  decide +kernel

end Store

end DocMesh
