/-
# Exchanges that are interrupted

An exchange may be cut off at any point: a request is lost, or its answer, or nobody goes on. Both nodes are on their way
then. An exchange that begins anew finds in the two logs how far the last one has come, and goes on from there.

Main statements:

* `advance_answer` : an exchange goes on with every answer, and fails only at what cannot be delivered;
* `underway_receive` : every delivery, and every one that is lost, leaves both nodes on their way;
* `finished_of_direct` : an exchange that nothing interrupts succeeds, if all entries can be delivered;
* `resumed_eq` : an exchange that succeeds in the end has done what one that nothing interrupts does.
-/
import DocMesh.Proofs.Sync.Mesh
import DocMesh.Proofs.Sync.Partway

namespace DocMesh

namespace Exchange

variable {a b s t : Store} {db : Database} {x x' : Exchange} {r r' : Responder} {m : Message}
  {reply : Except NetworkError Message} {page : List Entry} {waiting : List (List Entry)} {budget : Nat}

/-! ## Exchanges that are on their way -/

/-- The exchange stands where the two logs say: it pulls from the end of its own log, and it pushes what it has beyond
the peer's log when nothing is left to be pulled. -/
inductive Abreast (s t : Store) (budget : Nat) : Phase → Prop where
  | clock : Abreast s t budget .clock
  | pull : Abreast s t budget (.pull t.latest s.latest)
  | push {page : List Entry} {waiting : List (List Entry)} (hpulled : t.entriesAfter s.latest = [])
    (hpages : Entry.pages budget (s.entriesAfter t.latest) = page :: waiting) :
    Abreast s t budget (.push page waiting)
  | finished (hpulled : t.entriesAfter s.latest = []) (hpushed : s.entriesAfter t.latest = []) :
    Abreast s t budget .finished
  | failed (e : NetworkError) : Abreast s t budget (.failed e)

/-- Both nodes are on their way from the stores `a` and `b`, and the exchange stands where their logs say. -/
structure Underway (a b : Store) (x : Exchange) (r : Responder) : Prop where
  own : x.database.storage.Partway a b
  peer : r.database.storage.Partway b a
  abreast : Abreast x.database.storage.store r.database.storage.store x.budget x.phase

/-- Two steps on the way are one. -/
theorem Underway.trans (h : Underway a b x r)
    (h' : Underway x.database.storage.store r.database.storage.store x' r') : Underway a b x' r' where
  own := h.own.trans h.peer h'.own
  peer := h.peer.trans h.own h'.peer
  abreast := h'.abreast

/-- How many phases there are to the end. -/
def Phase.ahead : Phase → Nat
  | .clock => 3
  | .pull _ _ => 2
  | .push _ _ => 1
  | .finished | .failed _ => 0

/-- How much is left to an exchange: entries in both directions, and phases. -/
def left (x : Exchange) (r : Responder) : Nat :=
  (r.database.storage.store.entriesAfter x.database.storage.store.latest).length
    + (x.database.storage.store.entriesAfter r.database.storage.store.latest).length + x.phase.ahead

theorem ahead_pos (hm : x.request? = some m) : 0 < x.phase.ahead := by
  rw [request?] at hm
  split at hm <;> rename_i hphase
  · rw [hphase]
    exact Nat.succ_pos 2
  · rw [hphase]
    exact Nat.succ_pos 1
  · rw [hphase]
    exact Nat.succ_pos 0
  · cases hm
  · cases hm

/-- All that two stores have beyond each other can be delivered. -/
def Compatible (s t : Store) : Prop :=
  (∀ e ∈ t.entriesAfter s.latest, e.Deliverable) ∧ ∀ e ∈ s.entriesAfter t.latest, e.Deliverable

/-- What has become of an exchange that has gone on from the stores `s` and `t`: it is on its way from there, less than
`n` is left, and it has failed only if something cannot be delivered. -/
structure Advance (s t : Store) (n : Nat) (x : Exchange) (r : Responder) : Prop where
  underway : Underway s t x r
  left : x.left r < n
  failed : ∀ e, x.phase = .failed e → ¬ Compatible s t

theorem left_eq (hdb : x.database.storage = ⟨s, none⟩) (hr : r.database.storage = ⟨t, none⟩) :
    x.left r = (t.entriesAfter s.latest).length + (s.entriesAfter t.latest).length + x.phase.ahead := by
  rw [left, hdb, hr]

/-- A failure changes neither node. -/
theorem underway_fail (hdb : x.database.storage = ⟨s, none⟩) (hr : r.database.storage = ⟨t, none⟩)
    (e : NetworkError) : Underway s t (x.fail e) r where
  own := .refl hdb t
  peer := .refl hr s
  abreast := .failed e

/-- An exchange that waits for an answer has failed. -/
theorem advance_fail (hdb : x.database.storage = ⟨s, none⟩) (hr : r.database.storage = ⟨t, none⟩)
    (hm : x.request? = some m) (h : ¬ Compatible s t) (e : NetworkError) :
    Advance s t (x.left r) (x.fail e) r where
  underway := underway_fail hdb hr e
  left := Nat.lt_add_of_pos_right (ahead_pos hm)
  failed := fun _ _ => h

/-- The answer to the question for the latest timestamp. -/
theorem advance_clock (hdb : db.storage = ⟨s, none⟩) (hr : r.database.storage = ⟨t, none⟩)
    (moved : Transfer) :
    let x : Exchange := ⟨db, budget, .clock, moved⟩
    Advance s t (x.left r) (x.receive (r.answer .clockRequest).1) (r.answer .clockRequest).2 := by
  intro x
  rw [Responder.answer, Database.latest, hr]
  show Advance s t (x.left r) (x.beginPull t.latest) r
  rw [beginPull, Database.latest, hdb]
  refine ⟨⟨.refl hdb t, .refl hr s, ?_⟩, Nat.lt_succ_self _, fun e => Phase.noConfusion⟩
  show Abreast db.storage.store r.database.storage.store budget (.pull t.latest s.latest)
  rw [hdb, hr]
  exact .pull

/-- The exchange goes on with the pages of what it has beyond the peer's log. -/
theorem abreast_pushing (x : Exchange) (hpulled : t.entriesAfter s.latest = [])
    (hpages : Entry.pages budget (s.entriesAfter t.latest) = waiting) :
    Abreast s t budget (x.pushing waiting).phase := by
  cases waiting with
  | nil =>
    refine .finished hpulled ?_
    rw [← Entry.flatten_pages budget (s.entriesAfter t.latest), hpages]
    rfl
  | cons page waiting => exact .push hpulled hpages

@[simp] theorem budget_pushing (x : Exchange) (pages : List (List Entry)) :
    (x.pushing pages).budget = x.budget := by
  cases pages <;> rfl

theorem ahead_pushing_le (x : Exchange) (pages : List (List Entry)) : (x.pushing pages).phase.ahead ≤ 1 := by
  cases pages with
  | nil => exact Nat.zero_le 1
  | cons page pages => exact Nat.le_refl 1

theorem phase_pushing_ne_failed (x : Exchange) (pages : List (List Entry)) (e : NetworkError) :
    (x.pushing pages).phase ≠ .failed e := by
  cases pages <;> exact Phase.noConfusion

/-- The peer may have taken a page, and the exchange goes on with the other ones. -/
theorem advance_pushing {t' : Store} {k : Nat} (hdb : x.database.storage = ⟨s, none⟩)
    (hr : r.database.storage = ⟨t', none⟩) (hpeer : r.database.storage.Partway t s)
    (hpulled : t'.entriesAfter s.latest = [])
    (hpages : Entry.pages x.budget (s.entriesAfter t'.latest) = waiting)
    (hk : (s.entriesAfter t'.latest).length + 1 < k) : Advance s t k (x.pushing waiting) r := by
  have hdatabase : (x.pushing waiting).database.storage = ⟨s, none⟩ := by
    rw [database_pushing]
    exact hdb
  refine ⟨⟨.refl hdatabase t, hpeer, ?_⟩, ?_, ?_⟩
  · rw [hdatabase, hr, budget_pushing]
    exact abreast_pushing x hpulled hpages
  · rw [left_eq hdatabase hr, hpulled, List.length_nil, Nat.zero_add]
    exact Nat.lt_of_le_of_lt (Nat.add_le_add_left (ahead_pushing_le x waiting) _) hk
  · intro e he
    exact absurd he (phase_pushing_ne_failed x waiting e)

/-- Nothing is left to be pulled, and the push begins. -/
theorem advance_beginPush (hdb : x.database.storage = ⟨s, none⟩) (hr : r.database.storage = ⟨t, none⟩)
    (hpulled : t.entriesAfter s.latest = []) (hphase : 1 < x.phase.ahead) :
    Advance s t (x.left r) (x.beginPush t.latest) r := by
  have hout : x.database.entriesAfter t.latest = .ok (s.entriesAfter t.latest) := by
    rw [Database.entriesAfter, hdb]
    rfl
  rw [beginPush, hout]
  refine advance_pushing ?_ hr (.refl hr s) hpulled rfl ?_
  · exact hdb
  rw [left_eq hdb hr, hpulled, List.length_nil, Nat.zero_add]
  exact Nat.add_lt_add_left hphase _

/-- The answer to a pull: a page that is taken, or nothing more, and then the push begins. -/
theorem advance_pull (hdb : db.storage = ⟨s, none⟩) (hr : r.database.storage = ⟨t, none⟩)
    (moved : Transfer) :
    let x : Exchange := ⟨db, budget, .pull t.latest s.latest, moved⟩
    Advance s t (x.left r) (x.receive (r.answer (.pullRequest s.latest)).1)
      (r.answer (.pullRequest s.latest)).2 := by
  intro x
  have hm : x.request? = some (.pullRequest s.latest) := rfl
  rw [Responder.answer_pull, hr]
  dsimp only
  generalize hpage : Entry.page (max r.budget 1) (t.entriesAfter s.latest) = page
  have hmem : ∀ e ∈ page, e ∈ t.entriesAfter s.latest := by
    rw [← hpage]
    exact fun e he => Entry.mem_of_mem_page he
  unfold receive request? receiveMessage Answer.changes
  dsimp only [x]
  rcases has : WireEntry.toEntries (page.map .ofEntry) with fault | as
  · refine advance_fail hdb hr hm ?_ _
    intro hc
    rw [Entry.toEntries_eq_ok fun e he => (hc.1 e (hmem e he)).1] at has
    cases has
  have hcarried := Entry.toEntries_map_ofEntry has
  dsimp only
  rw [pull, hcarried, List.getLast?_map]
  rcases hlast : page.getLast? with _ | last
  · -- the page is empty, so nothing is left to be pulled
    have hpulled : t.entriesAfter s.latest = [] :=
      Entry.eq_nil_of_page_eq_nil (hpage.trans (List.getLast?_eq_none_iff.1 hlast))
    exact advance_beginPush (x := x) hdb hr hpulled (Nat.lt_succ_self 1)
  · rw [← hpage] at hlast has
    dsimp only [Option.map_some]
    rw [Entry.timestamp_carried, if_neg (Std.not_le.2 (Store.entriesAfter_of_page hlast).1), ← hcarried]
    rcases hok : db.applyRemote as with fault | ⟨db', n⟩
    · refine advance_fail hdb hr hm ?_ _
      intro hc
      obtain ⟨db', n, hok'⟩ := Database.exists_applyRemote (congrArg Storage.fault hdb)
        fun e he => hc.1 e (hmem e he)
      rw [← hcarried, hok] at hok'
      cases hok'
    · obtain ⟨hown, hlatest⟩ := Storage.partway_of_page hdb hlast has hok
      refine ⟨⟨hown, .refl hr s, ?_⟩, ?_, fun e => Phase.noConfusion⟩
      · show Abreast db'.storage.store r.database.storage.store budget (.pull t.latest last.timestamp)
        rw [hr, ← hlatest]
        exact .pull
      · rw [left_eq (x := x) hdb hr, left_eq hown.eq_mk hr, hown.entriesAfter (Std.le_refl t.latest), hlatest]
        exact Nat.add_lt_add_right (Nat.add_lt_add_right (Store.length_entriesAfter_of_page hlast) _) _

/-- The answer to a pushed page. -/
theorem advance_push (hdb : db.storage = ⟨s, none⟩) (hr : r.database.storage = ⟨t, none⟩)
    (hpulled : t.entriesAfter s.latest = [])
    (hpages : Entry.pages budget (s.entriesAfter t.latest) = page :: waiting) (moved : Transfer) :
    let x : Exchange := ⟨db, budget, .push page waiting, moved⟩
    Advance s t (x.left r) (x.receive (r.answer (.pushRequest (page.map .ofEntry))).1)
      (r.answer (.pushRequest (page.map .ofEntry))).2 := by
  intro x
  have hm : x.request? = some (.pushRequest (page.map .ofEntry)) := rfl
  obtain ⟨hne, hpage, hwaiting⟩ := Entry.pages_eq_cons hpages
  have hmem : ∀ e ∈ page, e ∈ s.entriesAfter t.latest := by
    rw [hpage]
    exact fun e he => Entry.mem_of_mem_page he
  rw [Responder.answer]
  rcases has : WireEntry.toEntries (page.map .ofEntry) with fault | as
  · refine advance_fail hdb hr hm ?_ _
    intro hc
    rw [Entry.toEntries_eq_ok fun e he => (hc.2 e (hmem e he)).1] at has
    cases has
  dsimp only
  rw [Responder.accept]
  rcases hok : r.database.applyRemote as with fault | ⟨peer, n⟩
  · refine advance_fail hdb hr hm ?_ _
    intro hc
    obtain ⟨db', n, hok'⟩ := Database.exists_applyRemote (congrArg Storage.fault hr)
      fun e he => hc.2 e (hmem e he)
    rw [← Entry.toEntries_map_ofEntry has, hok] at hok'
    cases hok'
  rcases hlast : page.getLast? with _ | last
  · rw [List.getLast?_eq_none_iff.1 hlast] at hpage
    exact absurd (Entry.eq_nil_of_page_eq_nil hpage.symm) hne
  rw [hpage] at hlast has
  obtain ⟨hpeer, hlatest⟩ := Storage.partway_of_page hr hlast has hok
  -- the pages that wait are those of what is beyond the peer's new log
  have hrest : (s.entriesAfter t.latest).drop (Entry.page budget (s.entriesAfter t.latest)).length
      = s.entriesAfter peer.storage.store.latest := by
    have hboth := Entry.page_append_drop budget (s.entriesAfter t.latest)
    rw [hlatest]
    exact List.append_cancel_left (hboth.trans (Store.entriesAfter_of_page hlast).2)
  rw [hrest] at hwaiting
  have hpulled' : peer.storage.store.entriesAfter s.latest = [] := by
    rw [hpeer.entriesAfter (Std.le_refl s.latest), hpulled]
  apply advance_pushing (x := x) hdb hpeer.eq_mk hpeer hpulled' hwaiting.symm
  rw [left_eq (x := x) hdb hr, hpulled, List.length_nil, Nat.zero_add, hlatest]
  exact Nat.succ_lt_succ (Store.length_entriesAfter_of_page hlast)

/-! ## Deliveries -/

/-- Every answer brings an exchange on. -/
theorem advance_answer (hdb : x.database.storage = ⟨s, none⟩) (hr : r.database.storage = ⟨t, none⟩)
    (h : Abreast s t x.budget x.phase) (hm : x.request? = some m) :
    Advance s t (x.left r) (x.receive (r.answer m).1) (r.answer m).2 := by
  obtain ⟨db, budget, phase, moved⟩ := x
  cases h with
  | clock =>
    cases hm
    exact advance_clock hdb hr moved
  | pull =>
    cases hm
    exact advance_pull hdb hr moved
  | push hpulled hpages =>
    cases hm
    exact advance_push hdb hr hpulled hpages moved
  | finished => cases hm
  | failed => cases hm

theorem Underway.advance (h : Underway a b x r) (hm : x.request? = some m) :
    Advance x.database.storage.store r.database.storage.store (x.left r) (x.receive (r.answer m).1)
      (r.answer m).2 :=
  advance_answer h.own.eq_mk h.peer.eq_mk h.abreast hm

/-- Every delivery leaves both nodes on their way, and so does one that is lost. -/
theorem underway_receive (h : Underway a b x r) (hm : x.request? = some m)
    (hd : Delivery r m reply r') : Underway a b (x.receive reply) r' := by
  apply h.trans
  cases hd with
  | answered => exact (h.advance hm).underway
  | requestLost e =>
    rw [receive_error hm]
    exact underway_fail h.own.eq_mk h.peer.eq_mk e
  | answerLost e =>
    -- the responder has acted on the request all the same
    rw [receive_error hm]
    exact ⟨.refl h.own.eq_mk _, (h.advance hm).underway.peer, .failed e⟩

/-- An exchange begins, and its nodes may be on their way already. -/
theorem underway_start (hdb : db.storage.Partway a b) (hr : r.database.storage.Partway b a) (budget : Nat) :
    Underway a b { database := db, budget := budget } r := ⟨hdb, hr, .clock⟩

/-- However many requests there are, both nodes are on their way. -/
theorem underway_run {σ : Type} (line : Line σ) {s : σ} (h : Underway a b x (line.far s)) (rounds : Nat) :
    Underway a b (x.runWith line.ask rounds s).1 (line.far (x.runWith line.ask rounds s).2) :=
  line.run_induction (fun _ _ _ _ _ h hm hd => underway_receive h hm hd) rounds x s h

/-! ## Exchanges that come to their end -/

theorem Underway.compatible (h : Underway a b x r) (hc : Compatible a b) :
    Compatible x.database.storage.store r.database.storage.store :=
  ⟨fun e he => hc.1 e (h.own.mem_of_mem_entriesAfter h.peer he),
    fun e he => hc.2 e (h.peer.mem_of_mem_entriesAfter h.own he)⟩

/-- An exchange that has finished has moved all that the nodes had beyond each other. -/
theorem Underway.holds_of_finished (h : Underway a b x r) (hphase : x.phase = .finished) :
    x.database.Holds a (b.entriesAfter a.latest) ∧ r.database.Holds b (a.entriesAfter b.latest) ∧
      Compatible a b := by
  have habreast := h.abreast
  rw [hphase] at habreast
  cases habreast with
  | finished hpulled hpushed =>
    obtain ⟨hown, howns⟩ := h.own.eq_whole h.peer hpulled
    obtain ⟨hpeer, hpeers⟩ := h.peer.eq_whole h.own hpushed
    exact ⟨hown, hpeer, howns, hpeers⟩

/-- An exchange that neither waits for an answer nor has failed has finished. -/
theorem finished_of_request?_eq_none (hm : x.request? = none) (hphase : ∀ e, x.phase ≠ .failed e) :
    x.phase = .finished := by
  obtain ⟨db, budget, phase, moved⟩ := x
  cases phase with
  | clock => cases hm
  | pull => cases hm
  | push => cases hm
  | finished => rfl
  | failed e => exact absurd rfl (hphase e)

/-- An exchange that nothing interrupts finishes, if all that the nodes have beyond each other can be delivered. -/
theorem finished_of_direct (h : Underway a b x r) (hc : Compatible a b) (hphase : ∀ e, x.phase ≠ .failed e)
    {rounds : Nat} (hrounds : x.left r ≤ rounds) :
    (x.runWith Line.direct.ask rounds r).1.phase = .finished := by
  -- with every request less is left, and what is left can still be delivered
  induction rounds generalizing x r with
  | zero =>
    rcases hm : x.request? with _ | m
    · exact finished_of_request?_eq_none hm hphase
    · have hpos := ahead_pos hm
      rw [left] at hrounds
      omega
  | succ rounds ih =>
    rw [runWith]
    rcases hm : x.request? with _ | m
    · exact finished_of_request?_eq_none hm hphase
    · have hstep := h.advance hm
      apply ih (h.trans hstep.underway)
      · intro e he
        exact hstep.failed e he (h.compatible hc)
      · exact Nat.le_of_lt_succ (Nat.lt_of_lt_of_le hstep.left hrounds)

/-! ## Exchanges that are interrupted -/

/-- What is left of two storages after exchanges that were cut off, one after the other. -/
inductive Interrupted (p q : Storage) : Storage → Storage → Prop where
  | start : Interrupted p q p q
  /-- One more exchange begins anew, over any line, and is cut off after some requests. -/
  | again {p' q' : Storage} (h : Interrupted p q p' q') {db : Database} (hdb : db.storage = p')
    {σ : Type} (line : Line σ) {s s' : σ} (hfar : (line.far s).database.storage = q') (budget rounds : Nat)
    {x : Exchange} (hrun : runWith line.ask rounds { database := db, budget := budget } s = (x, s')) :
    Interrupted p q x.database.storage (line.far s').database.storage

/-- Exchanges that were cut off leave both nodes on their way. -/
theorem Interrupted.partway {p q : Storage} (h : Interrupted ⟨a, none⟩ ⟨b, none⟩ p q) :
    p.Partway a b ∧ q.Partway b a := by
  induction h with
  | start => exact ⟨.refl rfl b, .refl rfl a⟩
  | again h hdb line hfar budget rounds hrun ih =>
    subst hdb hfar
    have hunderway := underway_run line (underway_start ih.1 ih.2 budget) rounds
    rw [hrun] at hunderway
    exact ⟨hunderway.own, hunderway.peer⟩

/-- **Interrupted exchanges resume.** Two nodes with the stores `a` and `b` begin an exchange any number of times, over
any lines and with pages of any size, and each time it is cut off somewhere. Then an exchange succeeds. Each log has
grown by what the other node had beyond it at the beginning, and both nodes end with the log and the documents with
which they would have ended if nothing had interrupted the first exchange, which would have succeeded. -/
theorem resumed_eq {σ : Type} {p q : Storage} (h : Interrupted ⟨a, none⟩ ⟨b, none⟩ p q)
    (hdb : db.storage = p) (line : Line σ) {s s' : σ} (hfar : (line.far s).database.storage = q)
    {rounds : Nat} (hrun : runWith line.ask rounds { database := db, budget := budget } s = (x, s'))
    {moved : Transfer} (hok : x.result? = some (.ok moved))
    {own : Database} (hown : own.storage = ⟨a, none⟩) (hr : r.database.storage = ⟨b, none⟩) (k n : Nat)
    (hn : (b.entriesAfter a.latest).length + (a.entriesAfter b.latest).length + 3 ≤ n) :
    let y := runWith Line.direct.ask n { database := own, budget := k } r
    x.database.storage.store.log.toList = a.log.toList ++ a.beyond b ∧
      (line.far s').database.storage.store.log.toList = b.log.toList ++ b.beyond a ∧
      y.1.result? = some (.ok y.1.moved) ∧
      x.database.storage.store.log = y.1.database.storage.store.log ∧
      x.database.storage.store.documents = y.1.database.storage.store.documents ∧
      (line.far s').database.storage.store.log = y.2.database.storage.store.log ∧
      (line.far s').database.storage.store.documents = y.2.database.storage.store.documents := by
  intro y
  subst hdb hfar
  have hx := underway_run line (underway_start h.partway.1 h.partway.2 budget) rounds
  rw [hrun] at hx
  obtain ⟨hown', hpeer', hc⟩ := hx.holds_of_finished (phase_of_result? hok)
  have hstart : Underway a b { database := own, budget := k } r := underway_start (.refl hown b) (.refl hr a) k
  have hleft : left { database := own, budget := k } r ≤ n := by
    rw [left_eq hown hr]
    exact hn
  have hfinished : y.1.phase = .finished := finished_of_direct hstart hc (fun e => Phase.noConfusion) hleft
  obtain ⟨hy, hy', _⟩ := (underway_run Line.direct hstart n).holds_of_finished hfinished
  exact ⟨hown'.toList_log, hpeer'.toList_log, result?_of_finished hfinished, hown'.log_eq hy,
    hown'.documents_eq hy, hpeer'.log_eq hy', hpeer'.documents_eq hy'⟩

/-- A node has two entries to push, each on a page of its own, and the answer to the first page is lost when the peer
has applied it. The next exchange pushes the other one. -/
theorem resumed_eq_two :
    let a := Store.applyAll {} [.put "notes" "x" (.ofInt 1) ⟨100, 0, "a"⟩, .delete "notes" "x" ⟨200, 0, "a"⟩]
    let db : Database := ⟨{ store := a }, ⟨"a", ⟨200, 0, "a"⟩⟩⟩
    let r : Responder := { database := ⟨{}, ⟨"b", ⟨10, 0, "b"⟩⟩⟩, token := "" }
    let cut := runWith Line.fading.ask 3 { database := db, budget := 1 } (2, r)
    let x := runWith Line.direct.ask 3 { database := cut.1.database, budget := 1 } cut.2.2
    let y := runWith Line.direct.ask 5 { database := db, budget := 1000 } r
    cut.1.result? = some (.error .closed) ∧ cut.2.2.database.storage.store.log.size = 1 ∧
      x.1.moved = ⟨0, 1⟩ ∧ y.1.moved = ⟨0, 2⟩ ∧
      x.2.database.storage.store.log = y.2.database.storage.store.log ∧
      x.2.database.storage.store.documents = y.2.database.storage.store.documents := by
  intro a db r cut x y
  have hcut : Interrupted ⟨a, none⟩ ⟨{}, none⟩ cut.1.database.storage cut.2.2.database.storage :=
    .again .start rfl Line.fading rfl 1 3 (Prod.eta cut).symm
  have hfinished : x.1.phase = .finished := by decide +kernel
  have hok : x.1.result? = some (.ok x.1.moved) := result?_of_finished hfinished
  have hdb : db.storage = ⟨a, none⟩ := rfl
  have hr : r.database.storage = ⟨{}, none⟩ := rfl
  obtain ⟨-, -, -, -, -, hlog, hdocuments⟩ := resumed_eq hcut rfl Line.direct rfl (Prod.eta x).symm hok
    hdb hr 1000 5 (by decide +kernel)
  refine ⟨?_, by decide +kernel, by decide +kernel, by decide +kernel, hlog, hdocuments⟩
  have hfailed : cut.1.phase = .failed .closed := by decide +kernel
  rw [result?, hfailed]

end Exchange

end DocMesh
