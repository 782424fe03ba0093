/-
# What an exchange brings together

An exchange asks with one timestamp in each direction: the last one of the own log, and the last one of the
peer's. An entry that lies before that timestamp and is not known is not asked for. So the logs of both nodes are
the same afterwards exactly if there is no such entry on either side.

Main statements:

* `Store.log_eq_iff` : when logs that were extended by what was beyond them are the same;
* `Store.documents_eq_of_sharesNewest` : when the documents are the same;
* `Mesh.exchange_complete_iff` : what an exchange does that succeeds, in any mesh;
* `Mesh.exchange_incomplete` : an exchange that succeeds and leaves an entry behind.
-/
import DocMesh.Proofs.Store.Newest
import DocMesh.Proofs.Sync.Effect
import DocMesh.Proofs.Sync.Mesh

namespace DocMesh

/-- Among the changes to one document in a list one is the newest. -/
theorem Entry.exists_newest {a : Entry} {es : List Entry} (ha : a ∈ es) :
    ∃ e ∈ es, e.documentId = a.documentId ∧
      ∀ b ∈ es, b.documentId = a.documentId → b.timestamp ≤ e.timestamp := by
  -- the newest of `c` and the changes in the list to the same document
  suffices hmax : ∀ c : Entry, ∃ e, (e = c ∨ e ∈ es) ∧ e.documentId = c.documentId ∧
      c.timestamp ≤ e.timestamp ∧
      ∀ b ∈ es, b.documentId = c.documentId → b.timestamp ≤ e.timestamp by
    obtain ⟨e, he, hid, _, hle⟩ := hmax a
    rcases he with rfl | he
    · exact ⟨e, ha, hid, hle⟩
    · exact ⟨e, he, hid, hle⟩
  clear ha
  intro c
  -- `c` is the newest entry so far
  induction es generalizing c with
  | nil => exact ⟨c, Or.inl rfl, rfl, Std.le_refl c.timestamp, fun b hb => nomatch hb⟩
  | cons f es ih =>
    by_cases hf : f.documentId = c.documentId ∧ c.timestamp < f.timestamp
    · obtain ⟨hid, hlt⟩ := hf
      obtain ⟨e, he, heid, hle, hmax⟩ := ih f
      refine ⟨e, Or.inr ?_, heid.trans hid, Std.le_trans (Std.le_of_lt hlt) hle, ?_⟩
      · exact List.mem_cons.2 he
      · intro b hb hbid
        rcases List.mem_cons.1 hb with rfl | hb
        · exact hle
        · exact hmax b hb (hbid.trans hid.symm)
    · obtain ⟨e, he, heid, hle, hmax⟩ := ih c
      refine ⟨e, he.imp_right (List.mem_cons_of_mem f), heid, hle, ?_⟩
      intro b hb hbid
      rcases List.mem_cons.1 hb with rfl | hb
      · refine Std.le_trans (Std.not_lt.1 ?_) hle
        exact fun hlt => hf ⟨hbid, hlt⟩
      · exact hmax b hb hbid

namespace Store

variable {s t : Store} {e a : Entry} {id : DocumentId}

/-! ## Entries that arrive -/

/-- The entry of a peer's log is sent to the store and arrives as it is, or lies before the end of the store's log and
is there already. -/
def Receives (s : Store) (e : Entry) : Prop :=
  if s.latest < e.timestamp then e.carried = e else e ∈ s.log.toList

instance (s : Store) (e : Entry) : Decidable (s.Receives e) :=
  inferInstanceAs (Decidable (if s.latest < e.timestamp then e.carried = e else e ∈ s.log.toList))

/-- The store receives all of the other one's log. -/
def Covers (s t : Store) : Prop := ∀ e ∈ t.log.toList, s.Receives e

instance (s t : Store) : Decidable (s.Covers t) :=
  inferInstanceAs (Decidable (∀ e ∈ t.log.toList, s.Receives e))

theorem mem_beyond : e ∈ s.beyond t ↔ ∃ a ∈ t.log.toList, s.latest < a.timestamp ∧ a.carried = e := by
  rw [beyond, List.mem_map]
  constructor
  · rintro ⟨a, ha, rfl⟩
    exact ⟨a, (mem_entriesAfter.1 ha).1, (mem_entriesAfter.1 ha).2, rfl⟩
  · rintro ⟨a, ha, hlt, rfl⟩
    exact ⟨a, mem_entriesAfter.2 ⟨ha, hlt⟩, rfl⟩

/-- An entry of the other log is in the extended log exactly if it is received. -/
theorem mem_append_beyond_iff (he : e ∈ t.log.toList) :
    e ∈ s.log.toList ++ s.beyond t ↔ s.Receives e := by
  rw [List.mem_append, Receives]
  by_cases hlt : s.latest < e.timestamp
  · rw [if_pos hlt]
    constructor
    · rintro (hs | hb)
      · exact absurd (Std.lt_of_lt_of_le hlt (le_latest hs)) Std.lt_irrefl
      · obtain ⟨a, ha, _, hcarried⟩ := mem_beyond.1 hb
        have hid : a.id = e.id := by rw [← hcarried, Entry.id_carried]
        rwa [Ordered.eq_of_key_eq ha he hid] at hcarried
    · -- it is sent, and arrives as it is
      intro hcarried
      exact Or.inr (mem_beyond.2 ⟨e, he, hlt, hcarried⟩)
  · rw [if_neg hlt]
    constructor
    · rintro (hs | hb)
      · exact hs
      · -- what is sent keeps its timestamp, so that this entry cannot come of it
        obtain ⟨a, _, hlta, hcarried⟩ := mem_beyond.1 hb
        rw [← hcarried, Entry.timestamp_carried] at hlt
        exact absurd hlta hlt
    · exact Or.inl

/-- A store that receives all of the other one's log has the union of both logs. -/
theorem Covers.mem_iff (h : s.Covers t) :
    e ∈ s.log.toList ++ s.beyond t ↔ e ∈ s.log.toList ∨ e ∈ t.log.toList := by
  constructor
  · intro he
    rcases List.mem_append.1 he with hs | hb
    · exact Or.inl hs
    · obtain ⟨a, ha, hlt, rfl⟩ := mem_beyond.1 hb
      have hcarried := h a ha
      rw [Receives, if_pos hlt] at hcarried
      rw [hcarried]
      exact Or.inr ha
  · rintro (hs | ht)
    · exact List.mem_append_left _ hs
    · exact (mem_append_beyond_iff ht).2 (h e ht)

/-! ## Logs -/

/-- The extended logs are the same exactly if both stores receive all of the other log. -/
theorem log_eq_iff :
    (s.applyAll (s.beyond t)).log = (t.applyAll (t.beyond s)).log ↔ s.Covers t ∧ t.Covers s := by
  constructor
  · intro h
    have hlist := congrArg Ordered.toList h
    rw [toList_log_applyAll_beyond, toList_log_applyAll_beyond] at hlist
    constructor
    · intro e he
      rw [← mem_append_beyond_iff he, hlist]
      exact List.mem_append_left _ he
    · intro e he
      rw [← mem_append_beyond_iff he, ← hlist]
      exact List.mem_append_left _ he
  · rintro ⟨hst, hts⟩
    apply Ordered.eq_of_mem_iff
    intro e
    rw [toList_log_applyAll_beyond, toList_log_applyAll_beyond, hst.mem_iff, hts.mem_iff, or_comm]

/-! ## Documents -/

/-- The newest change to each document, in the two logs together, is received by the store that does not have it. -/
def SharesNewest (s t : Store) : Prop :=
  ∀ e, e ∈ s.log.toList ∨ e ∈ t.log.toList →
    (∀ a, a ∈ s.log.toList ∨ a ∈ t.log.toList → a.documentId = e.documentId →
      a.timestamp ≤ e.timestamp) →
    (e ∈ t.log.toList → s.Receives e) ∧ (e ∈ s.log.toList → t.Receives e)

theorem SharesNewest.symm (h : s.SharesNewest t) : t.SharesNewest s := by
  intro e he hmax
  have hst := h e he.symm fun a ha hid => hmax a ha.symm hid
  exact ⟨hst.2, hst.1⟩

/-- Stores that receive all of each other's logs share the newest changes. -/
theorem Covers.sharesNewest (hst : s.Covers t) (hts : t.Covers s) : s.SharesNewest t :=
  fun e _ _ => ⟨hst e, hts e⟩

/-- If a shared change is the newest one to its document in both logs together, it is so in the extended log. -/
theorem SharesNewest.isNewest (h : s.SharesNewest t) (he : e ∈ s.log.toList ∨ e ∈ t.log.toList)
    (hmax : ∀ a, a ∈ s.log.toList ∨ a ∈ t.log.toList → a.documentId = e.documentId →
      a.timestamp ≤ e.timestamp) :
    IsNewest (s.applyAll (s.beyond t)).log e.documentId e := by
  rw [IsNewest, toList_log_applyAll_beyond]
  refine ⟨?_, rfl, ?_⟩
  · rcases he with hs | ht
    · exact List.mem_append_left _ hs
    · exact (mem_append_beyond_iff ht).2 ((h e (Or.inr ht) hmax).1 ht)
  · intro a ha hid
    rcases List.mem_append.1 ha with hs | hb
    · exact hmax a (Or.inl hs) hid
    · obtain ⟨b, ht, _, rfl⟩ := mem_beyond.1 hb
      rw [Entry.timestamp_carried]
      apply hmax b (Or.inr ht)
      rwa [Entry.documentId_carried] at hid

/-- Documents that no log knows are in no extended store. -/
theorem find?_applyAll_beyond_eq_none (hs : Stamped (s.applyAll (s.beyond t)))
    (h : ∀ a, a ∈ s.log.toList ∨ a ∈ t.log.toList → a.documentId ≠ id) :
    (s.applyAll (s.beyond t)).documents.find? id = none := by
  rcases hf : (s.applyAll (s.beyond t)).documents.find? id with _ | d
  · rfl
  · obtain ⟨e, ⟨he, hid, _⟩, _⟩ := hs.present hf
    rw [toList_log_applyAll_beyond] at he
    rcases List.mem_append.1 he with hlog | hbeyond
    · exact absurd hid (h e (Or.inl hlog))
    · obtain ⟨a, ha, _, rfl⟩ := mem_beyond.1 hbeyond
      rw [Entry.documentId_carried] at hid
      exact absurd hid (h a (Or.inr ha))

/-- Where the newest write wins, stores that share the newest changes have the same documents when each is given what
the other one has beyond its log. -/
theorem documents_eq_of_sharesNewest (hs : Stamped s) (ht : Stamped t)
    (hsr : s.resolver = .lastWriteWins) (htr : t.resolver = .lastWriteWins) (h : s.SharesNewest t) :
    (s.applyAll (s.beyond t)).documents = (t.applyAll (t.beyond s)).documents := by
  have hs' := hs.applyAll (s.beyond t)
  have ht' := ht.applyAll (t.beyond s)
  apply Ordered.eq_of_find?_eq
  intro id
  by_cases hid : ∃ a ∈ s.log.toList ++ t.log.toList, a.documentId = id
  · -- both stores show the newest change to the document in the two logs together
    obtain ⟨a, ha, rfl⟩ := hid
    obtain ⟨e, he, heid, hmax⟩ := Entry.exists_newest ha
    have he := List.mem_append.1 he
    have hmax : ∀ b, b ∈ s.log.toList ∨ b ∈ t.log.toList → b.documentId = e.documentId →
        b.timestamp ≤ e.timestamp := by
      intro b hb hbid
      exact hmax b (List.mem_append.2 hb) (hbid.trans heid)
    rw [← heid, hs'.find?_of_isNewest ((resolver_applyAll _ _).trans hsr) (h.isNewest he hmax),
      ht'.find?_of_isNewest ((resolver_applyAll _ _).trans htr)
        (h.symm.isNewest he.symm fun b hb => hmax b hb.symm)]
  · have hnone : ∀ a, a ∈ s.log.toList ∨ a ∈ t.log.toList → a.documentId ≠ id := by
      intro a ha heq
      exact hid ⟨a, List.mem_append.2 ha, heq⟩
    rw [find?_applyAll_beyond_eq_none hs' hnone,
      find?_applyAll_beyond_eq_none ht' fun a ha => hnone a ha.symm]

end Store

/-! ## Exchanges in a mesh -/

namespace Mesh

variable {ι : Type} [DecidableEq ι]

/-- **What an exchange brings together.** In any mesh, let one node exchange entries with another one over a line of
any kind, and let the exchange succeed. Then each log has grown, at its end, by what the other one had beyond it,
and the logs are the same, namely the union of what they were, exactly if both nodes received all of the other's
log. Where the newest write wins on both nodes, their documents are the same if the logs are, or if only
the newest change to each document was received. -/
theorem exchange_complete_iff {r : ι → Resolver} {net : ι → Database} (hnet : Reachable r net)
    {i j : ι} {σ : Type} (line : Line σ) {s s' : σ} (hfar : (line.far s).database = net j)
    {budget rounds : Nat} {x : Exchange} {moved : Transfer}
    (hrun : Exchange.runWith line.ask rounds { database := net i, budget := budget } s = (x, s'))
    (hok : x.result? = some (.ok moved)) :
    let a := (net i).storage.store
    let b := (net j).storage.store
    let a' := x.database.storage.store
    let b' := (line.far s').database.storage.store
    a'.log.toList = a.log.toList ++ a.beyond b ∧ b'.log.toList = b.log.toList ++ b.beyond a ∧
      (a'.log = b'.log ↔ a.Covers b ∧ b.Covers a) ∧
      (a'.log = b'.log → ∀ e, e ∈ a'.log.toList ↔ e ∈ a.log.toList ∨ e ∈ b.log.toList) ∧
      (r i = .lastWriteWins → r j = .lastWriteWins → a'.log = b'.log ∨ a.SharesNewest b →
        a'.documents = b'.documents) := by
  intro a b a' b'
  have hi := hnet.intact i
  have hj := hnet.intact j
  have hdb : (net i).storage = ⟨a, none⟩ := by rw [← hi.fault]
  have hpeer : (line.far s).database.storage = ⟨b, none⟩ := by rw [hfar, ← hj.fault]
  obtain ⟨⟨f, hf⟩, ⟨g, hg⟩, _⟩ := Exchange.effect line hdb hpeer hrun hok
  have ha' : a' = { a.applyAll (a.beyond b) with feed := f } := congrArg Storage.store hf
  have hb' : b' = { b.applyAll (b.beyond a) with feed := g } := congrArg Storage.store hg
  have hlogs : a'.log = b'.log ↔ a.Covers b ∧ b.Covers a := by
    rw [ha', hb']
    exact Store.log_eq_iff
  refine ⟨?_, ?_, hlogs, ?_, ?_⟩
  · rw [ha']
    exact Store.toList_log_applyAll_beyond a b
  · rw [hb']
    exact Store.toList_log_applyAll_beyond b a
  · intro heq e
    rw [← (hlogs.1 heq).1.mem_iff, ← Store.toList_log_applyAll_beyond, ha']
  · intro hri hrj hshared
    have hnewest : a.SharesNewest b := by
      rcases hshared with heq | hnewest
      · exact (hlogs.1 heq).1.sharesNewest (hlogs.1 heq).2
      · exact hnewest
    rw [ha', hb']
    exact Store.documents_eq_of_sharesNewest hi.grown.stamped hj.grown.stamped
      (hi.grown.resolver_eq.trans hri) (hj.grown.resolver_eq.trans hrj) hnewest

/-! ### Two nodes -/

/-- The mesh of two nodes. -/
def pair (a b : Database) : Bool → Database := fun i => bif i then a else b

variable {r : Resolver} {a b : Database}

/-- Two new nodes are a mesh. -/
theorem reachable_pair (start : Int64)
    (ha : Database.open a.node { store := { resolver := r } } start = .ok a)
    (hb : Database.open b.node { store := { resolver := r } } start = .ok b) :
    Reachable (fun _ => r) (pair a b) := by
  apply Reachable.opened (fun i => (pair a b i).node) (fun _ => start)
  intro i
  cases i with
  | true => exact ha
  | false => exact hb

theorem Reachable.pair_acted_left (h : Reachable (fun _ => r) (pair a b)) (action : Database.Action) :
    Reachable (fun _ => r) (pair (a.perform action) b) := by
  have hpair : Function.update (pair a b) true (a.perform action) = pair (a.perform action) b := by
    funext i
    cases i <;> rfl
  rw [← hpair]
  exact h.acted true action

theorem Reachable.pair_acted_right (h : Reachable (fun _ => r) (pair a b)) (action : Database.Action) :
    Reachable (fun _ => r) (pair a (b.perform action)) := by
  have hpair : Function.update (pair a b) false (b.perform action) = pair a (b.perform action) := by
    funext i
    cases i <;> rfl
  rw [← hpair]
  exact h.acted false action

/-! ### Two exchanges -/

/-- A new node asks one that has written. -/
theorem exchange_complete_new :
    let a : Database := ⟨{}, ⟨"a", ⟨10, 0, "a"⟩⟩⟩
    let b : Database := ⟨{}, ⟨"b", ⟨10, 0, "b"⟩⟩⟩
    let y := Exchange.runWith Line.direct.ask 4 { database := b, budget := 1000 }
      { database := a.perform (.put "notes" "x" (.ofInt 1) 100), token := "" }
    y.1.database.storage.store.log = y.2.database.storage.store.log ∧
      y.1.database.storage.store.documents = y.2.database.storage.store.documents := by
  intro a b y
  have hnet : Reachable (fun _ => .lastWriteWins) (pair a b) := reachable_pair 10 rfl rfl
  have hfinished : y.1.phase = .finished := by decide +kernel
  have hrun : Exchange.runWith Line.direct.ask 4 { database := b, budget := 1000 }
      { database := a.perform (.put "notes" "x" (.ofInt 1) 100), token := "" } = (y.1, y.2) :=
    (Prod.eta y).symm
  obtain ⟨-, -, hlogs, -, hdocuments⟩ := exchange_complete_iff
    (i := false) (j := true) (hnet.pair_acted_left (.put "notes" "x" (.ofInt 1) 100))
    Line.direct rfl hrun (Exchange.result?_of_finished hfinished)
  simp only [pair, cond_true, cond_false, Line.far_direct] at hlogs hdocuments
  have hcovers : b.storage.store.Covers (a.perform (.put "notes" "x" (.ofInt 1) 100)).storage.store ∧
      (a.perform (.put "notes" "x" (.ofInt 1) 100)).storage.store.Covers b.storage.store := by
    decide +kernel
  have heq := hlogs.2 hcovers
  exact ⟨heq, hdocuments trivial trivial (Or.inl heq)⟩

/-- **An entry that is left behind.** Two nodes have written, and the clock of the first was ahead. Its exchange with
the second one succeeds and pushes its own write, but it never asks for the older one. -/
theorem exchange_incomplete :
    let a : Database := ⟨{}, ⟨"a", ⟨10, 0, "a"⟩⟩⟩
    let b : Database := ⟨{}, ⟨"b", ⟨10, 0, "b"⟩⟩⟩
    let net := pair (a.perform (.put "notes" "x" (.ofInt 1) 100)) (b.perform (.put "notes" "y" (.ofInt 2) 50))
    let y := Exchange.runWith Line.direct.ask 4 { database := net true, budget := 1000 }
      { database := net false, token := "" }
    Reachable (fun _ => .lastWriteWins) net ∧ (net true).node ≠ (net false).node ∧
      y.1.result? = some (.ok ⟨0, 1⟩) ∧
      Entry.put "notes" "y" (.ofInt 2) ⟨50, 0, "b"⟩ ∈ (net false).storage.store.log.toList ∧
      Entry.put "notes" "y" (.ofInt 2) ⟨50, 0, "b"⟩ ∉ y.1.database.storage.store.log.toList ∧
      y.1.database.storage.store.log ≠ y.2.database.storage.store.log ∧
      y.1.database.storage.store.documents ≠ y.2.database.storage.store.documents := by
  intro a b net y
  have hpair : Reachable (fun _ => .lastWriteWins) (pair a b) := reachable_pair 10 rfl rfl
  have hnet : Reachable (fun _ => .lastWriteWins) net :=
    (hpair.pair_acted_left (.put "notes" "x" (.ofInt 1) 100)).pair_acted_right
      (.put "notes" "y" (.ofInt 2) 50)
  have hmoved : y.1.phase = .finished ∧ y.1.moved = ⟨0, 1⟩ := by decide +kernel
  refine ⟨hnet, by decide +kernel, ?_, by decide +kernel⟩
  rw [Exchange.result?_of_finished hmoved.1, hmoved.2]

end Mesh

end DocMesh
