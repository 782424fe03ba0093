/-
# What an exchange does

An exchange that succeeds has moved what lies beyond the other log, in both directions and nothing else. What is
proved on the way holds at every moment of it: how much has been pulled and applied, and how much was pushed.

Main statements:

* `onCourse_receive` : every delivery keeps an exchange on course;
* `effect` : what an exchange has done that has succeeded.
-/
import DocMesh.Proofs.Database.Run
import DocMesh.Proofs.Sync.Line

namespace DocMesh

/-! ## What a database holds -/

namespace Database

variable {s : Store} {es fs as : List Entry} {since : Timestamp} {db db' : Database} {n : Summary}

/-- The storage works and holds the store to which the given entries were sent one by one. What was announced is left
open. -/
def Holds (db : Database) (s : Store) (es : List Entry) : Prop :=
  ∃ f, db.storage = ⟨{ s.applyAll (es.map Entry.carried) with feed := f }, none⟩

theorem holds_nil (h : db.storage = ⟨s, none⟩) : db.Holds s [] := ⟨s.feed, h⟩

theorem Holds.fault (h : db.Holds s es) : db.storage.fault = none := by
  obtain ⟨f, hf⟩ := h
  rw [hf]

theorem Holds.latest (h : db.Holds s []) : db.latest = .ok s.latest := by
  obtain ⟨f, hf⟩ := h
  rw [Database.latest, hf]
  rfl

/-- Entries that were sent do not change what there is after them. -/
theorem Holds.entriesAfter (h : db.Holds s es) (hes : ∀ e ∈ es, e.timestamp ≤ since) :
    db.entriesAfter since = .ok (s.entriesAfter since) := by
  obtain ⟨f, hf⟩ := h
  have hcarried : ∀ e ∈ es.map Entry.carried, e.timestamp ≤ since := by
    intro e he
    obtain ⟨a, ha, rfl⟩ := List.mem_map.1 he
    rw [Entry.timestamp_carried]
    exact hes a ha
  rw [← Store.entriesAfter_applyAll hcarried, Database.entriesAfter, hf]
  rfl

/-- More entries are sent. -/
theorem Holds.applyRemote (h : db.Holds s es)
    (has : WireEntry.toEntries (fs.map .ofEntry) = .ok as) (hok : db.applyRemote as = .ok (db', n)) :
    db'.Holds s (es ++ fs) := by
  obtain ⟨g, hg⟩ := applyRemote_eq_ok h.fault hok
  obtain ⟨f, hf⟩ := h
  refine ⟨g, ?_⟩
  rw [hg, hf, Entry.toEntries_map_ofEntry has, List.map_append, Store.applyAll_append,
    Store.applyAll_feed]

/-- A log that has grown by all that another store has beyond it. -/
theorem Holds.toList_log {t : Store} (h : db.Holds s (t.entriesAfter s.latest)) :
    db.storage.store.log.toList = s.log.toList ++ s.beyond t := by
  obtain ⟨f, hf⟩ := h
  rw [hf]
  exact Store.toList_log_applyAll_beyond s t

/-- The log is told by what was sent. -/
theorem Holds.log_eq (h : db.Holds s es) (h' : db'.Holds s es) :
    db.storage.store.log = db'.storage.store.log := by
  obtain ⟨f, hf⟩ := h
  obtain ⟨g, hg⟩ := h'
  rw [hf, hg]

/-- The documents are told by what was sent. -/
theorem Holds.documents_eq (h : db.Holds s es) (h' : db'.Holds s es) :
    db.storage.store.documents = db'.storage.store.documents := by
  obtain ⟨f, hf⟩ := h
  obtain ⟨g, hg⟩ := h'
  rw [hf, hg]

/-- The answer to a pull from a database that nothing was sent to. -/
theorem Holds.answer_pull {r : Responder} (h : r.database.Holds s []) (since : Timestamp) :
    r.answer (.pullRequest since)
      = (.ok (.changeSet ((Entry.page (max r.budget 1) (s.entriesAfter since)).map .ofEntry)), r) := by
  obtain ⟨f, hf⟩ := h
  rw [Responder.answer_pull, hf]
  rfl

end Database

namespace Exchange

variable {a b : Store} {x : Exchange} {r r' : Responder} {m : Message}
  {reply : Except NetworkError Message} {db peer : Database} {es page : List Entry}
  {waiting : List (List Entry)} {since : Timestamp} {budget : Nat} {moved : Transfer}

/-! ## The course of an exchange -/

/-- How the databases of both ends stand in each phase of an exchange between nodes whose stores were `a` and `b`. -/
inductive Stage (a b : Store) : Phase → Transfer → Database → Database → Prop where
  | clock {db peer : Database} (hdb : db.Holds a []) (hpeer : peer.Holds b []) :
    Stage a b .clock {} db peer
  | pull {db peer : Database} {pulled : List Entry} {since : Timestamp} (hdb : db.Holds a pulled)
    (hpeer : peer.Holds b [])
    (hsplit : b.entriesAfter a.latest = pulled ++ b.entriesAfter since) :
    Stage a b (.pull b.latest since) ⟨pulled.length, 0⟩ db peer
  | push {db peer : Database} {pushed page : List Entry} {waiting : List (List Entry)}
    (hdb : db.Holds a (b.entriesAfter a.latest)) (hpeer : peer.Holds b pushed)
    (hsplit : a.entriesAfter b.latest = pushed ++ page ++ waiting.flatten) :
    Stage a b (.push page waiting)
      ⟨(b.entriesAfter a.latest).length, (a.entriesAfter b.latest).length⟩ db peer
  | finished {db peer : Database} (hdb : db.Holds a (b.entriesAfter a.latest))
    (hpeer : peer.Holds b (a.entriesAfter b.latest)) :
    Stage a b .finished
      ⟨(b.entriesAfter a.latest).length, (a.entriesAfter b.latest).length⟩ db peer
  | failed {db peer : Database} {moved : Transfer} (e : NetworkError) :
    Stage a b (.failed e) moved db peer

/-- The exchange is where it should be, if it has not failed. -/
def OnCourse (a b : Store) (x : Exchange) (r : Responder) : Prop :=
  Stage a b x.phase x.moved x.database r.database

theorem onCourse_fail (x : Exchange) (e : NetworkError) (r : Responder) : OnCourse a b (x.fail e) r :=
  .failed e

/-- The push goes on with the pages that are left. -/
theorem onCourse_pushing {pushed : List Entry} (hdb : db.Holds a (b.entriesAfter a.latest))
    (hpeer : r.database.Holds b pushed)
    (hsplit : a.entriesAfter b.latest = pushed ++ waiting.flatten) (phase : Phase) :
    OnCourse a b (pushing ⟨db, budget, phase,
      ⟨(b.entriesAfter a.latest).length, (a.entriesAfter b.latest).length⟩⟩ waiting) r := by
  cases waiting with
  | nil =>
    rw [List.flatten_nil, List.append_nil] at hsplit
    rw [← hsplit] at hpeer
    exact .finished hdb hpeer
  | cons page pages =>
    rw [List.flatten_cons, ← List.append_assoc] at hsplit
    exact .push hdb hpeer hsplit

/-- The push begins when everything was pulled. -/
theorem onCourse_beginPush (hdb : db.Holds a (b.entriesAfter a.latest))
    (hpeer : r.database.Holds b []) (phase : Phase) :
    OnCourse a b
      (beginPush ⟨db, budget, phase, ⟨(b.entriesAfter a.latest).length, 0⟩⟩ b.latest) r := by
  have hout : db.entriesAfter b.latest = .ok (a.entriesAfter b.latest) := by
    apply hdb.entriesAfter
    intro e he
    exact Store.le_latest (Store.mem_entriesAfter.1 he).1
  rw [beginPush, hout]
  apply onCourse_pushing hdb hpeer
  rw [Entry.flatten_pages, List.nil_append]

/-! ## Deliveries -/

/-- Without an answer an exchange fails. -/
theorem receive_error (hm : x.request? = some m) (e : NetworkError) :
    x.receive (.error e) = x.fail e := by
  unfold receive
  rw [hm]

/-- The answer to the question for the latest timestamp. -/
theorem onCourse_clock (hdb : db.Holds a []) (hpeer : r.database.Holds b []) :
    OnCourse a b (receive ⟨db, budget, .clock, {}⟩ (r.answer .clockRequest).1)
      (r.answer .clockRequest).2 := by
  rw [Responder.answer, hpeer.latest]
  show OnCourse a b (beginPull ⟨db, budget, .clock, {}⟩ b.latest) r
  rw [beginPull, hdb.latest]
  exact .pull hdb hpeer (List.nil_append _).symm

/-- The answer to a pull: one more page of what the peer has beyond the log, or nothing more. -/
theorem onCourse_pull {pulled : List Entry} (hdb : db.Holds a pulled) (hpeer : r.database.Holds b [])
    (hsplit : b.entriesAfter a.latest = pulled ++ b.entriesAfter since) :
    OnCourse a b (receive ⟨db, budget, .pull b.latest since, ⟨pulled.length, 0⟩⟩
      (r.answer (.pullRequest since)).1) (r.answer (.pullRequest since)).2 := by
  rw [hpeer.answer_pull]
  generalize hpage : Entry.page (max r.budget 1) (b.entriesAfter since) = page
  unfold receive request? receiveMessage Answer.changes
  dsimp only
  rcases has : WireEntry.toEntries (page.map .ofEntry) with fault | as
  · exact onCourse_fail _ _ _
  have hcarried : as = page.map Entry.carried := Entry.toEntries_map_ofEntry has
  dsimp only
  rw [pull, hcarried, List.getLast?_map]
  rcases hlast : page.getLast? with _ | last
  · -- the page is empty, so nothing is left to be pulled
    have hrest : b.entriesAfter since = [] :=
      Entry.eq_nil_of_page_eq_nil (hpage.trans (List.getLast?_eq_none_iff.1 hlast))
    rw [hrest, List.append_nil] at hsplit
    rw [← hsplit] at hdb ⊢
    exact onCourse_beginPush hdb hpeer _
  · rw [← hpage] at hlast
    obtain ⟨_, hbehind⟩ := Store.entriesAfter_of_page hlast
    rw [hpage] at hbehind
    dsimp only [Option.map_some]
    rw [Entry.timestamp_carried]
    split
    · exact onCourse_fail _ _ _
    rw [← hcarried]
    rcases hok : db.applyRemote as with fault | ⟨db', n⟩
    · exact onCourse_fail _ _ _
    rw [hbehind, ← List.append_assoc] at hsplit
    have hstage := Stage.pull (hdb.applyRemote has hok) hpeer hsplit
    have hlength : (pulled ++ page).length = pulled.length + as.length := by
      rw [List.length_append, hcarried, List.length_map]
    rw [hlength] at hstage
    exact hstage

/-- The answer to a pushed page. -/
theorem onCourse_push {pushed : List Entry} (hdb : db.Holds a (b.entriesAfter a.latest))
    (hpeer : r.database.Holds b pushed)
    (hsplit : a.entriesAfter b.latest = pushed ++ page ++ waiting.flatten) :
    OnCourse a b (receive ⟨db, budget, .push page waiting,
        ⟨(b.entriesAfter a.latest).length, (a.entriesAfter b.latest).length⟩⟩
      (r.answer (.pushRequest (page.map .ofEntry))).1)
      (r.answer (.pushRequest (page.map .ofEntry))).2 := by
  rw [Responder.answer]
  rcases has : WireEntry.toEntries (page.map .ofEntry) with fault | as
  · exact onCourse_fail _ _ _
  dsimp only
  rw [Responder.accept]
  rcases hok : r.database.applyRemote as with fault | ⟨peer, n⟩
  · exact onCourse_fail _ _ _
  · exact onCourse_pushing hdb (hpeer.applyRemote has hok) hsplit _

/-- Every delivery keeps an exchange on course. -/
theorem onCourse_receive (h : OnCourse a b x r) (hm : x.request? = some m)
    (hd : Delivery r m reply r') : OnCourse a b (x.receive reply) r' := by
  cases hd with
  | requestLost e =>
    rw [receive_error hm]
    exact onCourse_fail x e r
  | answerLost e =>
    rw [receive_error hm]
    exact onCourse_fail x e _
  | answered =>
    obtain ⟨db, budget, phase, moved⟩ := x
    cases h with
    | clock hdb hpeer =>
      cases hm
      exact onCourse_clock hdb hpeer
    | pull hdb hpeer hsplit =>
      cases hm
      exact onCourse_pull hdb hpeer hsplit
    | push hdb hpeer hsplit =>
      cases hm
      exact onCourse_push hdb hpeer hsplit
    | finished => cases hm
    | failed => cases hm

/-! ## Exchanges that succeed -/

/-- An exchange that has finished has succeeded. -/
theorem result?_of_finished (h : x.phase = .finished) : x.result? = some (.ok x.moved) := by
  rw [result?, h]

theorem phase_of_result? (h : x.result? = some (.ok moved)) : x.phase = .finished := by
  rw [result?] at h
  split at h
  · assumption
  · cases h
  · cases h

/-- An exchange that has succeeded has moved, entry by entry, what the peer had beyond this node's log and what this
node had beyond the peer's log, and has counted both. -/
theorem effect {σ : Type} (line : Line σ) {rounds : Nat} {s s' : σ} {x : Exchange}
    (hdb : db.storage = ⟨a, none⟩) (hpeer : (line.far s).database.storage = ⟨b, none⟩)
    (hrun : runWith line.ask rounds { database := db, budget := budget } s = (x, s'))
    (hok : x.result? = some (.ok moved)) :
    x.database.Holds a (b.entriesAfter a.latest) ∧
      (line.far s').database.Holds b (a.entriesAfter b.latest) ∧
      moved = ⟨(b.entriesAfter a.latest).length, (a.entriesAfter b.latest).length⟩ := by
  have hcourse : OnCourse a b x (line.far s') := by
    have h := line.run_induction (P := OnCourse a b)
      (fun x r m reply r' h hm hd => onCourse_receive h hm hd) rounds
      { database := db, budget := budget } s
      (.clock (Database.holds_nil hdb) (Database.holds_nil hpeer))
    rwa [hrun] at h
  obtain ⟨db', budget, phase, moved'⟩ := x
  cases hcourse with
  | finished hdb' hpeer' =>
    cases hok
    exact ⟨hdb', hpeer', rfl⟩
  | clock => cases hok
  | pull => cases hok
  | push => cases hok
  | failed => cases hok

end Exchange

end DocMesh
