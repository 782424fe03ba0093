/-
# What a node with an empty log is sent

The log of a new node is empty and ends at the timestamp zero, so that the node asks its peers for what they have
after zero. That is the whole log of a peer unless there are entries in it from before zero, which is not the least
of all timestamps; such entries are valid, and a new node is never sent them.

Main statements:

* `Timestamp.lt_zero_iff` : the timestamps before zero;
* `Store.first_pull_complete_iff` : what the cursor of an empty log reaches, and what a new node receives;
* `Store.first_pull_incomplete` : an entry that it does not reach.
-/
import DocMesh.Proofs.Store.History
import DocMesh.Proofs.Sync.Effect

namespace DocMesh

/-! ## Before the timestamp zero -/

namespace Timestamp

variable {t : Timestamp}

/-- The time is before the epoch, or it is the epoch and the counter is negative. -/
def Negative (t : Timestamp) : Prop := t.physical < 0 ∨ (t.physical = 0 ∧ t.counter < 0)

instance : Decidable t.Negative := inferInstanceAs (Decidable (_ ∨ _))

/-- No node identifier comes before the one of zero, so that only the time and the counter can. -/
theorem lt_zero_iff : t < zero ↔ t.Negative := by
  have hnode : compare t.node "" ≠ .lt := by
    rw [Ne, compare_lt_iff_lt]
    exact not_lt_empty t.node
  rw [lt_iff_compare, compare_def, Ordering.then_eq_lt, Ordering.then_eq_lt, Std.compare_eq_lt, Std.compare_eq_lt,
    Std.LawfulEqCmp.compare_eq_iff_eq]
  simp [zero, hnode, Negative]

/-- Timestamps that name a node are after zero unless they are before it. -/
theorem zero_lt_iff (h : t.node ≠ "") : zero < t ↔ ¬ t.Negative := by
  rw [← lt_zero_iff]
  constructor
  · intro hlt hgt
    exact Std.lt_irrefl (Std.lt_trans hlt hgt)
  · intro hnot
    have hne : zero ≠ t := fun heq => h (heq ▸ rfl)
    exact Std.lt_of_le_of_ne (Std.not_lt.1 hnot) hne

end Timestamp

/-! ## The first pull -/

namespace Store

variable {r : Resolver} {changes : List Change} {e : Entry} {s t : Store}

/-- Of a valid log the timestamp zero leaves out the entries that are before it. -/
theorem mem_entriesAfter_zero_iff (h : e ∈ (run { resolver := r } changes).log.toList) :
    e ∈ (run { resolver := r } changes).entriesAfter .zero ↔ ¬ e.timestamp.Negative := by
  have hvalid := (entryFault?_eq_none_iff e).1 (entryFault?_eq_none_of_mem_log_run h)
  have hnode : e.timestamp.node ≠ "" := fun heq => hvalid (Or.inr (Or.inr heq))
  rw [mem_entriesAfter, Timestamp.zero_lt_iff hnode]
  exact and_iff_right h

/-- A node with an empty log asks for what there is after the timestamp zero, whatever the peer's latest one is. -/
theorem request?_of_log_eq_nil {db : Database} (hdb : db.storage = ⟨t, none⟩) (ht : t.log.toList = []) (budget : Nat)
    (peerLatest : Timestamp) :
    (Exchange.receive { database := db, budget := budget } (.ok (.clockResponse peerLatest))).request?
      = some (.pullRequest .zero) := by
  have hlatest : db.latest = .ok .zero := by rw [(Database.holds_nil hdb).latest, latest_of_log_eq_nil ht]
  show (Exchange.beginPull { database := db, budget := budget } peerLatest).request? = some (.pullRequest .zero)
  rw [Exchange.beginPull, hlatest]
  rfl

/-- What a node with an empty log has in it after an exchange that succeeds. -/
theorem toList_log_of_log_eq_nil {σ : Type} (line : Line σ) {st : σ} {db : Database} {budget rounds : Nat}
    {moved : Transfer} (hdb : db.storage = ⟨t, none⟩) (ht : t.log.toList = [])
    (hpeer : (line.far st).database.storage = ⟨s, none⟩)
    (hok : (Exchange.runWith line.ask rounds { database := db, budget := budget } st).1.result? = some (.ok moved)) :
    (Exchange.runWith line.ask rounds { database := db, budget := budget } st).1.database.storage.store.log.toList
      = (s.entriesAfter .zero).map Entry.carried := by
  obtain ⟨hheld, -, -⟩ := Exchange.effect line hdb hpeer (Prod.eta _).symm hok
  rw [hheld.toList_log, beyond, ht, latest_of_log_eq_nil ht, List.nil_append]

/-- **What the cursor of an empty log reaches.** Of the log of a store that was new, whatever was done with it, there
is after the timestamp zero each entry but those with a negative timestamp; so it is the whole log if and only if there
is none of them. A node with an empty log asks for exactly that, and if its exchange succeeds, over a line of any kind,
then exactly that is its log. -/
theorem first_pull_complete_iff (r : Resolver) (changes : List Change) :
    let s := run { resolver := r } changes
    (∀ e ∈ s.log.toList, e ∈ s.entriesAfter .zero ↔ ¬ e.timestamp.Negative) ∧
      (s.entriesAfter .zero = s.log.toList ↔ ∀ e ∈ s.log.toList, ¬ e.timestamp.Negative) ∧
      ∀ (σ : Type) (line : Line σ) (st : σ) (db : Database) (t : Store) (budget : Nat),
        db.storage = ⟨t, none⟩ → t.log.toList = [] → (line.far st).database.storage = ⟨s, none⟩ →
        (∀ peerLatest, (Exchange.receive { database := db, budget := budget }
          (.ok (.clockResponse peerLatest))).request? = some (.pullRequest .zero)) ∧
        ∀ rounds moved,
          let x := (Exchange.runWith line.ask rounds { database := db, budget := budget } st).1
          x.result? = some (.ok moved) →
            x.database.storage.store.log.toList = (s.entriesAfter .zero).map Entry.carried := by
  intro s
  refine ⟨fun e => mem_entriesAfter_zero_iff, ?_, ?_⟩
  · constructor
    · intro hwhole e he
      rw [← mem_entriesAfter_zero_iff he, hwhole]
      exact he
    · intro hnone
      refine List.filter_eq_self.2 fun e he => decide_eq_true ?_
      exact (mem_entriesAfter.1 ((mem_entriesAfter_zero_iff he).2 (hnone e he))).2
  · intro σ line st db t budget hdb ht hpeer
    exact ⟨request?_of_log_eq_nil hdb ht budget, fun rounds moved hok => toList_log_of_log_eq_nil line hdb ht hpeer hok⟩

/-- A new node and a peer that has one entry from before zero and one from after it. -/
theorem first_pull_complete_iff_later :
    let p : Entry := .put "notes" "x" (.ofInt 1) ⟨-1, 0, "a"⟩
    let q : Entry := .put "notes" "y" (.ofInt 2) ⟨5, 0, "b"⟩
    let s := run { resolver := .lastWriteWins } [.batch [] [p, q]]
    let db : Database := ⟨{ store := {} }, ⟨"c", .zero⟩⟩
    let peer : Responder := { database := ⟨{ store := s }, ⟨"b", ⟨5, 0, "b"⟩⟩⟩, token := "" }
    let x := (Exchange.runWith Line.direct.ask 8 { database := db, budget := 100 } peer).1
    s.log.toList = [p, q] ∧ q ∈ s.entriesAfter .zero ∧ x.database.storage.store.log.toList = [q] := by
  intro p q s db peer x
  obtain ⟨hmem, -, hnode⟩ := first_pull_complete_iff .lastWriteWins [.batch [] [p, q]]
  have hlog : s.log.toList = [p, q] := by decide +kernel
  have hq : q ∈ s.log.toList := hlog ▸ List.mem_cons_of_mem p (List.mem_singleton_self q)
  have hfinished : x.phase = .finished := by decide +kernel
  have hok : x.result? = some (.ok x.moved) := Exchange.result?_of_finished hfinished
  obtain ⟨-, hreceived⟩ := hnode Responder Line.direct peer db {} 100 rfl rfl rfl
  have hafter : (s.entriesAfter .zero).map Entry.carried = [q] := by decide +kernel
  have hlog' := hreceived 8 x.moved hok
  rw [hafter] at hlog'
  subst x
  exact ⟨hlog, (hmem q hq).2 (by decide), hlog'⟩

/-- A valid entry that the cursor of an empty log does not reach: it is before the timestamp zero. -/
theorem first_pull_incomplete :
    let p : Entry := .put "notes" "x" (.ofInt 1) ⟨-1, 0, "a"⟩
    let q : Entry := .put "notes" "y" (.ofInt 2) ⟨5, 0, "b"⟩
    let s := run { resolver := .lastWriteWins } [.batch [] [p, q]]
    s.log.toList = [p, q] ∧ s.entriesAfter .zero = [q] := by
  decide +kernel

end Store

end DocMesh
