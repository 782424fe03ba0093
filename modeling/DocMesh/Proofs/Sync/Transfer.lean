/-
# What an exchange moves, entry by entry

An exchange that succeeds has sent each node what the other one had beyond its log, in the order of the log, and
each node has resolved it entry by entry. What was pulled is not pushed back, and a responder never answers a pull
with a change set that leads nowhere. What is sent is read back from its text, and a number may be read as another one.

Main statements:

* `onCourse_runWith` : an exchange is on course after any number of requests;
* `transfer_exact` : what an exchange does to both logs and to all documents, and what it never does;
* `transfer_alters_real` : a number that arrives as another one.
-/
import DocMesh.Proofs.Sync.Effect

namespace DocMesh

/-! ## Documents apart from the log -/

/-- The documents after the given entries are resolved one after the other. -/
def Resolver.resolveAll (r : Resolver) (documents : Ordered Document.id) (es : List Entry) :
    Ordered Document.id :=
  es.foldl (fun documents e =>
    match r.resolve (documents.find? e.documentId) e with
    | .apply d => documents.insert d
    | .ignore => documents) documents

namespace Store

variable {s t : Store} {e : Entry}

/-- What entries do to the documents does not depend on the log. -/
theorem documents_applyAll (s : Store) (es : List Entry) :
    (s.applyAll es).documents = s.resolver.resolveAll s.documents es := by
  induction es generalizing s with
  | nil => rfl
  | cons e es ih =>
    rw [applyAll_cons, ih, resolver_applyEntry, Resolver.resolveAll, Resolver.resolveAll, List.foldl_cons,
      applyEntry]
    rcases s.resolver.resolve (s.documents.find? e.documentId) e with d | _ <;> rfl

theorem ascending_beyond (s t : Store) : Ascending Entry.id (s.beyond t) :=
  (List.pairwise_append.1 (s.ascending_append_beyond t)).2.1

@[simp] theorem length_beyond (s t : Store) : (s.beyond t).length = (t.entriesAfter s.latest).length :=
  List.length_map _

/-- What arrives from beyond the log is what the other store has there, if it is read back unchanged. -/
theorem beyond_eq_iff :
    s.beyond t = t.entriesAfter s.latest ↔ ∀ e ∈ t.entriesAfter s.latest, e.carried = e := by
  have hid : t.entriesAfter s.latest = (t.entriesAfter s.latest).map id := (List.map_id _).symm
  rw [beyond]
  conv =>
    lhs
    rhs
    rw [hid]
  exact List.map_inj_left

/-- What comes from another store has not its place among the entries that are beyond the other one. -/
theorem id_ne_of_mem_beyond {p : Entry} (hp : p ∈ s.beyond t) (he : t.latest < e.timestamp) :
    p.id ≠ e.id := by
  obtain ⟨a, ha, rfl⟩ := List.mem_map.1 hp
  rw [Entry.id_carried]
  intro hid
  have ht : a.timestamp = e.timestamp := congrArg EntryId.timestamp hid
  have hle := le_latest (mem_entriesAfter.1 ha).1
  rw [ht] at hle
  exact Std.not_lt.2 hle he

end Store

/-! ## Answers -/

/-- An answer that arrives is the one that the responder has given. -/
theorem Delivery.answer_eq {r r' : Responder} {m answer : Message} {reply : Except NetworkError Message}
    (hd : Delivery r m reply r') (hok : reply = .ok answer) : (r.answer m).1 = .ok answer := by
  cases hd with
  | answered => exact hok
  | requestLost e => cases hok
  | answerLost e => cases hok

namespace Exchange

variable {a b : Store} {x : Exchange} {r : Responder} {m : Message} {db : Database}

/-- The answer is a change set that does not lead past the timestamp from which it was asked for. -/
def Stalls (x : Exchange) (answer : Message) : Prop :=
  ∃ peerLatest since entries last, x.phase = .pull peerLatest since ∧
    Answer.changes answer = .ok entries ∧ entries.getLast? = some last ∧ last.timestamp ≤ since

/-- An exchange fails at an answer that does not lead on. -/
theorem Stalls.receiveMessage (h : x.Stalls m) : ∃ since, x.receiveMessage m = x.fail (noAdvance since) := by
  obtain ⟨peerLatest, since, entries, last, hphase, hm, hlast, hle⟩ := h
  refine ⟨since, ?_⟩
  rw [Exchange.receiveMessage, hphase]
  dsimp only
  rw [hm]
  dsimp only
  rw [pull, hlast]
  dsimp only
  rw [if_pos hle]

/-- What a responder answers leads on. -/
theorem OnCourse.not_stalls {q : Message} (h : OnCourse a b x r) (hq : x.request? = some q)
    (hm : (r.answer q).1 = .ok m) : ¬ x.Stalls m := by
  rintro ⟨peerLatest, since, entries, last, hphase, hchanges, hlast, hle⟩
  obtain ⟨db, budget, phase, moved⟩ := x
  cases hphase
  cases hq
  cases h with
  | pull hdb hpeer hsplit =>
    rw [hpeer.answer_pull] at hm
    cases hm
    rw [Answer.changes] at hchanges
    split at hchanges
    · rename_i has
      cases hchanges
      rw [Entry.toEntries_map_ofEntry has, List.getLast?_map, Option.map_eq_some_iff] at hlast
      obtain ⟨e, he, rfl⟩ := hlast
      rw [Entry.timestamp_carried] at hle
      exact Std.not_lt.2 hle (Store.entriesAfter_of_page he).1
    · cases hchanges

/-- What is pushed is what this node had beyond the peer's log, and nothing that was pulled. -/
theorem OnCourse.mem_push {page : List Entry} {waiting : List (List Entry)} {e : Entry}
    (h : OnCourse a b x r) (hphase : x.phase = .push page waiting) (he : e ∈ page) :
    e ∈ a.log.toList ∧ b.latest < e.timestamp ∧ ∀ p ∈ a.beyond b, p.id ≠ e.id := by
  obtain ⟨db, budget, phase, moved⟩ := x
  cases hphase
  cases h with
  | push hdb hpeer hsplit =>
    have hmem : e ∈ a.entriesAfter b.latest := by
      rw [hsplit]
      exact List.mem_append_left _ (List.mem_append_right _ he)
    obtain ⟨hlog, hlt⟩ := Store.mem_entriesAfter.1 hmem
    exact ⟨hlog, hlt, fun p hp => Store.id_ne_of_mem_beyond hp hlt⟩

variable {σ : Type} {line : Line σ} {s : σ}

/-- An exchange is on course after any number of requests. -/
theorem onCourse_runWith (line : Line σ) (hdb : db.storage = ⟨a, none⟩)
    (hpeer : (line.far s).database.storage = ⟨b, none⟩) (budget rounds : Nat) :
    OnCourse a b (runWith line.ask rounds { database := db, budget := budget } s).1
      (line.far (runWith line.ask rounds { database := db, budget := budget } s).2) :=
  line.run_induction (fun _ _ _ _ _ h hm hd => onCourse_receive h hm hd) rounds
    { database := db, budget := budget } s (.clock (Database.holds_nil hdb) (Database.holds_nil hpeer))

/-- **What an exchange moves.** Let a node whose store is `a` exchange entries with one whose store is `b`, with pages
of any size, over a line of any kind, and let nobody else write. If the exchange succeeds, then each log has grown, at
its end, by exactly what the other one had beyond it, as it is read back from its text: by these very entries if and
only if they are read back unchanged. They ascend, the documents are what resolving them one after the other makes of
the documents before, and both were counted. At any time what is pushed comes from this node's old log beyond the
peer's, and has no place in common with what is pulled; and no answer stalls the exchange. -/
theorem transfer_exact (line : Line σ) (hdb : db.storage = ⟨a, none⟩)
    (hpeer : (line.far s).database.storage = ⟨b, none⟩) (budget : Nat) :
    let run n := runWith line.ask n { database := db, budget := budget } s
    (∀ n moved, (run n).1.result? = some (.ok moved) →
      let a' := (run n).1.database.storage.store
      let b' := (line.far (run n).2).database.storage.store
      a'.log.toList = a.log.toList ++ a.beyond b ∧ b'.log.toList = b.log.toList ++ b.beyond a ∧
        (a'.log.toList = a.log.toList ++ b.entriesAfter a.latest ↔
          ∀ e ∈ b.entriesAfter a.latest, e.carried = e) ∧
        (b'.log.toList = b.log.toList ++ a.entriesAfter b.latest ↔
          ∀ e ∈ a.entriesAfter b.latest, e.carried = e) ∧
        Ascending Entry.id (a.beyond b) ∧ Ascending Entry.id (b.beyond a) ∧
        a'.documents = a.resolver.resolveAll a.documents (a.beyond b) ∧
        b'.documents = b.resolver.resolveAll b.documents (b.beyond a) ∧
        moved = ⟨(a.beyond b).length, (b.beyond a).length⟩) ∧
    (∀ n page waiting, (run n).1.phase = .push page waiting →
      ∀ e ∈ page, e ∈ a.log.toList ∧ b.latest < e.timestamp ∧ ∀ p ∈ a.beyond b, p.id ≠ e.id) ∧
    ∀ n q m, (run n).1.request? = some q → (line.ask q (run n).2).1 = .ok m → ¬ (run n).1.Stalls m := by
  intro run
  have hcourse := onCourse_runWith line hdb hpeer budget
  refine ⟨?_, ?_, ?_⟩
  · intro n moved hok a' b'
    obtain ⟨ha, hb, hmoved⟩ := effect line hdb hpeer (Prod.eta (run n)).symm hok
    have hlog : a'.log.toList = a.log.toList ++ a.beyond b := ha.toList_log
    have hlog' : b'.log.toList = b.log.toList ++ b.beyond a := hb.toList_log
    obtain ⟨f, hf⟩ := ha
    obtain ⟨g, hg⟩ := hb
    refine ⟨hlog, hlog', ?_, ?_, a.ascending_beyond b, b.ascending_beyond a, ?_, ?_, ?_⟩
    · rw [hlog, List.append_cancel_left_eq, Store.beyond_eq_iff]
    · rw [hlog', List.append_cancel_left_eq, Store.beyond_eq_iff]
    · show (run n).1.database.storage.store.documents = _
      rw [hf]
      exact Store.documents_applyAll a _
    · show (line.far (run n).2).database.storage.store.documents = _
      rw [hg]
      exact Store.documents_applyAll b _
    · rw [Store.length_beyond, Store.length_beyond]
      exact hmoved
  · intro n page waiting hphase e he
    exact (hcourse n).mem_push hphase he
  · intro n q m hq hm
    exact (hcourse n).not_stalls hq ((line.delivery q (run n).2).answer_eq hm)

/-- Two nodes with two entries each, of which the peer has one beyond the log of the first node. -/
theorem transfer_exact_four :
    let a := Store.applyAll {} [.put "notes" "x" (.ofInt 1) ⟨100, 0, "a"⟩, .delete "notes" "y" ⟨300, 0, "a"⟩]
    let b := Store.applyAll {} [.put "notes" "y" (.ofInt 2) ⟨200, 0, "b"⟩, .put "notes" "z" .null ⟨400, 0, "b"⟩]
    let db : Database := ⟨{ store := a }, ⟨"a", ⟨300, 0, "a"⟩⟩⟩
    let r : Responder := { database := ⟨{ store := b }, ⟨"b", ⟨400, 0, "b"⟩⟩⟩, token := "", budget := 1 }
    let y := runWith Line.direct.ask 8 { database := db, budget := 1 } r
    y.1.database.storage.store.log.toList = a.log.toList ++ [.put "notes" "z" .null ⟨400, 0, "b"⟩] ∧
      y.2.database.storage.store.log = b.log ∧ y.1.moved = ⟨1, 0⟩ := by
  intro a b db r y
  have hdb : db.storage = ⟨a, none⟩ := rfl
  have hpeer : (Line.direct.far r).database.storage = ⟨b, none⟩ := rfl
  have hfinished : y.1.phase = .finished := by decide +kernel
  have hok : y.1.result? = some (.ok y.1.moved) := result?_of_finished hfinished
  obtain ⟨hlog, hlog', -, -, -, -, -, -, hmoved⟩ := (transfer_exact Line.direct hdb hpeer 1).1 8 y.1.moved hok
  have hbeyond : a.beyond b = [.put "notes" "z" .null ⟨400, 0, "b"⟩] ∧ b.beyond a = [] := by
    decide +kernel
  rw [hbeyond.1] at hlog hmoved
  rw [hbeyond.2, List.append_nil] at hlog'
  rw [hbeyond.2] at hmoved
  simp only [Line.far_direct] at hlog hlog'
  subst y
  exact ⟨hlog, Ordered.ext hlog', hmoved⟩

/-- **A number that arrives as another one.** A node has written the number 1e-24, and a new node exchanges entries with
it. The exchange succeeds and pulls the entry, and the entry in the log of the new node is another one. -/
theorem transfer_alters_real :
    let x : Json := .number (.real { negative := false, rank := 0x3af357c299a88ea7 })
    let b := Store.applyAll {} [.put "notes" "x" x ⟨100, 0, "b"⟩]
    let y := runWith Line.direct.ask 4
      { database := ⟨{}, ⟨"a", ⟨10, 0, "a"⟩⟩⟩, budget := 1000 }
      { database := ⟨{ store := b }, ⟨"b", ⟨100, 0, "b"⟩⟩⟩, token := "" }
    x.text = "1e-24" ∧ y.1.phase = .finished ∧ y.1.moved = ⟨1, 0⟩ ∧
      y.1.database.storage.store.log.toList ≠ b.entriesAfter Timestamp.zero := by
  decide +kernel

end Exchange

end DocMesh
