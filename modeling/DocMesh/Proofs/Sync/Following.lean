/-
# Following a node

A peer follows a node if it pulls from it time and again, each time from the last entry that it has received. Others
may write to the node in the meantime. Every page ends between two timestamps, so a pull passes over nothing that
is in the log; the peer can miss only what enters the log when the peer is past it already.

Main statements:

* `missed_perform` : a pull passes over nothing, and a batch hides only what is late;
* `missed_run` : what a peer misses is what was late;
* `received_once` : what is in the log when the peer begins comes in exactly one page.
-/
import DocMesh.Proofs.Store.Extension
import DocMesh.Proofs.Sync.Line

namespace DocMesh

/-! ## Wire entries by their places -/

namespace WireEntry

/-- The place in the log of the entry that is carried. -/
def id (w : WireEntry) : EntryId := ⟨w.timestamp, w.collection, w.key⟩

@[simp] theorem id_ofEntry (e : Entry) : (ofEntry e).id = e.id := rfl

@[simp] theorem timestamp_ofEntry (e : Entry) : (ofEntry e).timestamp = e.timestamp := rfl

/-- An earlier place is not after a later one in time. -/
theorem timestamp_le_of_compare {v w : WireEntry} (h : compare v.id w.id = .lt) :
    v.timestamp ≤ w.timestamp := by
  rw [EntryId.compare_def, Ordering.then_eq_lt] at h
  rcases h with hlt | ⟨heq, _⟩
  · exact Std.le_of_lt hlt
  · have heq : v.timestamp = w.timestamp := Std.LawfulEqCmp.eq_of_compare heq
    rw [heq]
    exact Std.le_refl w.timestamp

end WireEntry

/-! ## Batches and the log -/

/-- What is in the log of a database stays there, whatever batch is applied. -/
theorem Database.mem_log_of_applyBatch {db db' : Database} {documents : List Document}
    {entries : List Entry} {n : Summary} {e : Entry}
    (h : db.applyBatch documents entries = .ok (db', n)) (he : e ∈ db.storage.store.log.toList) :
    e ∈ db'.storage.store.log.toList := by
  rw [applyBatch, Storage.update] at h
  rcases hfault : db.storage.fault with _ | reason
  · rw [hfault] at h
    dsimp only at h
    rcases hs : db.storage.store.applyBatch documents entries with fault | ⟨s, m⟩
    · rw [hs] at h
      cases h
    · rw [hs] at h
      cases h
      exact Store.mem_log_of_applyBatch hs he
  · rw [hfault] at h
    cases h

/-- A batch leaves the clock alone. -/
theorem Database.clock_of_applyBatch {db db' : Database} {documents : List Document}
    {entries : List Entry} {n : Summary} (h : db.applyBatch documents entries = .ok (db', n)) :
    db'.clock = db.clock := by
  rw [applyBatch] at h
  split at h
  · cases h
    rfl
  · cases h

/-! ## Peers that follow -/

/-- A node, and a peer that follows it. -/
structure Following where
  /-- What answers the peer. -/
  responder : Responder
  /-- Where the peer has begun. -/
  since : Timestamp
  /-- The pages that the peer has received. -/
  pages : List (List WireEntry) := []

namespace Following

/-- The entries in the log of the node. -/
def log (x : Following) : List Entry := x.responder.database.storage.store.log.toList

/-- All that the peer has received. -/
def received (x : Following) : List WireEntry := x.pages.flatten

/-- Where the peer goes on: at the timestamp of the last entry that it has received. -/
def cursor (x : Following) : Timestamp := (x.received.getLast?.map (·.timestamp)).getD x.since

/-- Is the next page empty? -/
def CaughtUp (x : Following) : Prop :=
  (x.responder.answer (.pullRequest x.cursor)).1 = .ok (.changeSet [])

/-- What happens at a node that is followed. -/
inductive Event where
  /-- Somebody applies a batch. -/
  | batch (documents : List Document) (entries : List Entry)
  /-- The clock of the node issues a timestamp. -/
  | tick (now : Int64)
  /-- The peer asks for the next page. -/
  | pull

/-- What an event does. A batch that is refused does nothing, and neither does a pull without a page. -/
def perform (x : Following) : Event → Following
  | .batch documents entries =>
    match x.responder.database.applyBatch documents entries with
    | .ok (db, _) => { x with responder.database := db }
    | .error _ => x
  | .tick now => { x with responder.database := (x.responder.database.tick now).2 }
  | .pull =>
    match x.responder.answer (.pullRequest x.cursor) with
    | (.ok (.changeSet page), r) => { x with responder := r, pages := x.pages ++ [page] }
    | (_, r) => { x with responder := r }

/-- What the events do one after the other. -/
def run (x : Following) (events : List Event) : Following := events.foldl perform x

variable {x : Following} {v : Event} {e : Entry} {w : WireEntry} {page : List WireEntry}

/-! ## One event -/

/-- The next page, where the storage can be read. -/
def nextPage (x : Following) : List Entry :=
  Entry.page (max x.responder.budget 1) (x.responder.database.storage.store.entriesAfter x.cursor)

/-- The answer to a pull is the next page, as long as the storage can be read. -/
theorem answer_pull (x : Following) :
    x.responder.answer (.pullRequest x.cursor)
      = (match x.responder.database.storage.fault with
          | none => .ok (.changeSet (x.nextPage.map .ofEntry))
          | some reason => .error (.store (.storage reason)), x.responder) :=
  x.responder.answer_pull x.cursor

/-- The peer has received the next page. -/
def next (x : Following) : Following := { x with pages := x.pages ++ [x.nextPage.map .ofEntry] }

@[simp] theorem since_next (x : Following) : x.next.since = x.since := rfl

@[simp] theorem log_next (x : Following) : x.next.log = x.log := rfl

@[simp] theorem received_next (x : Following) :
    x.next.received = x.received ++ x.nextPage.map .ofEntry := by
  simp [next, received]

/-- A pull brings the next page, or nothing at all. -/
theorem perform_pull (x : Following) : x.perform .pull = x ∨ x.perform .pull = x.next := by
  rw [perform, answer_pull]
  rcases x.responder.database.storage.fault with _ | reason
  · exact Or.inr rfl
  · exact Or.inl rfl

theorem caughtUp_iff :
    x.CaughtUp ↔ x.responder.database.storage.fault = none ∧ x.nextPage = [] := by
  rw [CaughtUp, answer_pull]
  rcases x.responder.database.storage.fault with _ | reason <;> simp

/-- A peer that has caught up is past all of the log. -/
theorem CaughtUp.le_cursor (h : x.CaughtUp) (he : e ∈ x.log) : e.timestamp ≤ x.cursor := by
  have hrest := Entry.eq_nil_of_page_eq_nil (caughtUp_iff.1 h).2
  rw [← Std.not_lt]
  intro hlt
  have hmem := Store.mem_entriesAfter.2 ⟨he, hlt⟩
  rw [hrest] at hmem
  cases hmem

@[simp] theorem since_perform (x : Following) (v : Event) : (x.perform v).since = x.since := by
  cases v with
  | batch documents entries =>
    rw [perform]
    split <;> rfl
  | tick now => rfl
  | pull => rcases x.perform_pull with h | h <;> simp [h]

@[simp] theorem log_perform_pull (x : Following) : (x.perform .pull).log = x.log := by
  rcases x.perform_pull with h | h <;> simp [h]

/-- Only a pull brings anything to the peer. -/
theorem pages_perform_of_ne_pull (h : v ≠ .pull) : (x.perform v).pages = x.pages := by
  cases v with
  | batch documents entries =>
    rw [perform]
    split <;> rfl
  | tick now => rfl
  | pull => exact absurd rfl h

/-- What is in the log stays there. -/
theorem mem_log_perform (he : e ∈ x.log) (v : Event) : e ∈ (x.perform v).log := by
  cases v with
  | batch documents entries =>
    rw [perform]
    split
    · rename_i hb
      exact Database.mem_log_of_applyBatch hb he
    · exact he
  | tick now => exact he
  | pull => rwa [log_perform_pull]

/-! ## What a peer has received -/

/-- The peer has received entries of the log, in the order of the log, from behind the place where it has begun. -/
structure Sound (x : Following) : Prop where
  logged : ∀ w ∈ x.received, ∃ e ∈ x.log, WireEntry.ofEntry e = w
  ascending : Ascending WireEntry.id x.received
  after : ∀ w ∈ x.received, x.since < w.timestamp

/-- A peer that has received nothing yet. -/
theorem sound_start (r : Responder) (since : Timestamp) : Sound { responder := r, since := since } where
  logged _ hw := nomatch hw
  ascending := List.Pairwise.nil
  after _ hw := nomatch hw

theorem cursor_eq_since (h : x.received = []) : x.cursor = x.since := by
  rw [cursor, h]
  rfl

theorem cursor_of_getLast? (h : x.received.getLast? = some w) : x.cursor = w.timestamp := by
  rw [cursor, h]
  rfl

/-- The peer is past all that it has received. -/
theorem Sound.le_cursor (h : x.Sound) (hw : w ∈ x.received) : w.timestamp ≤ x.cursor := by
  rcases hlast : x.received.getLast? with _ | last
  · rw [List.getLast?_eq_none_iff.1 hlast] at hw
    cases hw
  · rw [cursor_of_getLast? hlast]
    obtain ⟨front, hfront⟩ := List.getLast?_eq_some_iff.1 hlast
    have hasc := h.ascending
    rw [hfront] at hasc hw
    rcases List.mem_append.1 hw with hw | hw
    · exact WireEntry.timestamp_le_of_compare
        ((List.pairwise_append.1 hasc).2.2 w hw last List.mem_cons_self)
    · rw [List.mem_singleton.1 hw]
      exact Std.le_refl last.timestamp

theorem Sound.since_le_cursor (h : x.Sound) : x.since ≤ x.cursor := by
  rcases hlast : x.received.getLast? with _ | last
  · rw [cursor_eq_since (List.getLast?_eq_none_iff.1 hlast)]
    exact Std.le_refl x.since
  · rw [cursor_of_getLast? hlast]
    exact Std.le_of_lt (h.after last (List.mem_of_getLast? hlast))

/-- What is on the next page is in the log and still to come. -/
theorem mem_nextPage (he : e ∈ x.nextPage) : e ∈ x.log ∧ x.cursor < e.timestamp :=
  Store.mem_entriesAfter.1 (Entry.mem_of_mem_page he)

theorem ascending_nextPage (x : Following) : Ascending WireEntry.id (x.nextPage.map .ofEntry) := by
  have hasc := x.responder.database.storage.store.ascending_entriesAfter x.cursor
  rw [← Entry.page_append_drop (max x.responder.budget 1)
    (x.responder.database.storage.store.entriesAfter x.cursor)] at hasc
  exact List.pairwise_map.2 (List.pairwise_append.1 hasc).1

theorem Sound.next (h : x.Sound) : x.next.Sound := by
  refine ⟨?_, ?_, ?_⟩
  · intro w hw
    rw [received_next, List.mem_append] at hw
    rcases hw with hw | hw
    · exact h.logged w hw
    · obtain ⟨e, he, rfl⟩ := List.mem_map.1 hw
      exact ⟨e, (mem_nextPage he).1, rfl⟩
  · rw [received_next]
    refine List.pairwise_append.2 ⟨h.ascending, x.ascending_nextPage, ?_⟩
    intro w hw w' hw'
    obtain ⟨e, he, rfl⟩ := List.mem_map.1 hw'
    rw [WireEntry.id_ofEntry, EntryId.compare_def, Ordering.then_eq_lt]
    exact Or.inl (Std.lt_of_le_of_lt (h.le_cursor hw) (mem_nextPage he).2)
  · intro w hw
    rw [received_next, List.mem_append] at hw
    rcases hw with hw | hw
    · exact h.after w hw
    · obtain ⟨e, he, rfl⟩ := List.mem_map.1 hw
      exact Std.lt_of_le_of_lt h.since_le_cursor (mem_nextPage he).2

/-- Whatever happens, the peer has received what it should. -/
theorem Sound.perform (h : x.Sound) (v : Event) : (x.perform v).Sound := by
  by_cases hv : v = .pull
  · subst hv
    rcases x.perform_pull with hp | hp <;> rw [hp]
    · exact h
    · exact h.next
  · have hreceived : (x.perform v).received = x.received := by
      rw [received, pages_perform_of_ne_pull hv, received]
    refine ⟨?_, ?_, ?_⟩
    · intro w hw
      rw [hreceived] at hw
      obtain ⟨e, he, rfl⟩ := h.logged w hw
      exact ⟨e, mem_log_perform he v, rfl⟩
    · rw [hreceived]
      exact h.ascending
    · rw [hreceived, since_perform]
      exact h.after

theorem Sound.run (h : x.Sound) (events : List Event) : (x.run events).Sound := by
  rw [Following.run]
  induction events generalizing x with
  | nil => exact h
  | cons v events ih => exact ih (h.perform v)

/-! ## What a peer misses -/

/-- The entry is in the log, and the peer is past it without having received it. -/
def Missed (x : Following) (e : Entry) : Prop :=
  e ∈ x.log ∧ x.since < e.timestamp ∧ e.timestamp ≤ x.cursor ∧ WireEntry.ofEntry e ∉ x.received

/-- The event brings the entry into the log when the peer is past it. -/
def Late (x : Following) (v : Event) (e : Entry) : Prop :=
  e ∉ x.log ∧ e ∈ (x.perform v).log ∧ x.since < e.timestamp ∧ e.timestamp ≤ x.cursor

instance (x : Following) (v : Event) (e : Entry) : Decidable (x.Late v e) :=
  inferInstanceAs (Decidable (e ∉ x.log ∧ e ∈ (x.perform v).log ∧ x.since < e.timestamp ∧
    e.timestamp ≤ x.cursor))

/-- A peer that has received nothing yet has missed nothing. -/
theorem not_missed_start (r : Responder) (since : Timestamp) :
    ¬ Missed { responder := r, since := since } e := by
  rintro ⟨_, hlt, hle, _⟩
  exact Std.lt_irrefl (Std.lt_of_lt_of_le hlt hle)

/-- One more page passes over nothing. -/
theorem missed_next : x.next.Missed e ↔ x.Missed e := by
  -- the page is empty, or it leads to the timestamp of its last entry
  rcases hlast : x.nextPage.getLast? with _ | a
  · have hempty : x.next.received = x.received := by
      rw [received_next, List.getLast?_eq_none_iff.1 hlast, List.map_nil, List.append_nil]
    have hcursor : x.next.cursor = x.cursor := by
      rw [cursor, hempty, since_next, cursor]
    rw [Missed, log_next, since_next, hempty, hcursor, Missed]
  obtain ⟨hahead, hsplit⟩ := Store.entriesAfter_of_page hlast
  have hcursor : x.next.cursor = a.timestamp := by
    apply cursor_of_getLast? (w := .ofEntry a)
    rw [received_next, List.getLast?_append, List.getLast?_map, hlast]
    rfl
  rw [Missed, log_next, since_next, hcursor, received_next, List.mem_append, not_or, Missed]
  constructor
  · rintro ⟨he, hsince, hle, hold, hnew⟩
    refine ⟨he, hsince, ?_, hold⟩
    rw [← Std.not_lt]
    intro hlt
    have hmem := Store.mem_entriesAfter.2 ⟨he, hlt⟩
    rw [hsplit, List.mem_append] at hmem
    rcases hmem with hpage | hrest
    · exact hnew (List.mem_map_of_mem hpage)
    · exact Std.not_lt.2 hle (Store.mem_entriesAfter.1 hrest).2
  · rintro ⟨he, hsince, hle, hold⟩
    refine ⟨he, hsince, Std.le_trans hle (Std.le_of_lt hahead), hold, ?_⟩
    intro hpage
    obtain ⟨b, hb, hbe⟩ := List.mem_map.1 hpage
    have hlt := (mem_nextPage hb).2
    rw [← WireEntry.timestamp_ofEntry, hbe, WireEntry.timestamp_ofEntry] at hlt
    exact Std.not_lt.2 hle hlt

/-- A pull passes over nothing, and of what is written the peer misses what is late. -/
theorem Sound.missed_perform (h : x.Sound) (v : Event) :
    (x.perform v).Missed e ↔ x.Missed e ∨ x.Late v e := by
  by_cases hv : v = .pull
  · subst hv
    have hlate : ¬ x.Late .pull e := by
      rintro ⟨hnew, he, _⟩
      rw [log_perform_pull] at he
      exact hnew he
    rw [or_iff_left hlate]
    rcases x.perform_pull with hp | hp <;> rw [hp]
    exact missed_next
  · have hreceived : (x.perform v).received = x.received := by
      rw [received, pages_perform_of_ne_pull hv, received]
    have hcursor : (x.perform v).cursor = x.cursor := by
      rw [cursor, hreceived, since_perform, cursor]
    rw [Missed, hreceived, hcursor, since_perform]
    constructor
    · rintro ⟨he, hsince, hle, hnot⟩
      by_cases hold : e ∈ x.log
      · exact Or.inl ⟨hold, hsince, hle, hnot⟩
      · exact Or.inr ⟨hold, he, hsince, hle⟩
    · rintro (⟨he, hsince, hle, hnot⟩ | ⟨hnew, he, hsince, hle⟩)
      · exact ⟨mem_log_perform he v, hsince, hle, hnot⟩
      · refine ⟨he, hsince, hle, ?_⟩
        -- what was received is in the log, and no other entry has its place there
        intro hw
        obtain ⟨a, ha, hae⟩ := h.logged _ hw
        have hid : a.id = e.id := by
          rw [← WireEntry.id_ofEntry, hae, WireEntry.id_ofEntry]
        rw [Ordered.eq_of_key_eq (mem_log_perform ha v) he hid] at ha
        exact hnew ha

/-- One of the events brings the entry into the log when the peer is past it. -/
def EntersLate (x : Following) : List Event → Entry → Prop
  | [], _ => False
  | v :: vs, e => x.Late v e ∨ (x.perform v).EntersLate vs e

/-- What a peer misses in a run is what is late. -/
theorem Sound.missed_run (h : x.Sound) (events : List Event) :
    (x.run events).Missed e ↔ x.Missed e ∨ x.EntersLate events e := by
  rw [Following.run]
  induction events generalizing x with
  | nil => exact (or_iff_left id).symm
  | cons v events ih => rw [List.foldl_cons, ih (h.perform v), h.missed_perform v, EntersLate, or_assoc]

/-- What is in the log is not late any more. -/
theorem not_entersLate_of_mem_log (he : e ∈ x.log) (events : List Event) : ¬ x.EntersLate events e := by
  induction events generalizing x with
  | nil => exact id
  | cons v events ih =>
    rintro (hlate | hlate)
    · exact hlate.1 he
    · exact ih (mem_log_perform he v) hlate

/-- A peer that has caught up has received all of the log after its beginning that it has not missed. -/
theorem CaughtUp.mem_received (h : x.CaughtUp) (he : e ∈ x.log) (hsince : x.since < e.timestamp)
    (hmissed : ¬ x.Missed e) : WireEntry.ofEntry e ∈ x.received :=
  Decidable.byContradiction fun hnot => hmissed ⟨he, hsince, h.le_cursor he, hnot⟩

@[simp] theorem since_run (x : Following) (events : List Event) : (x.run events).since = x.since := by
  rw [run]
  induction events generalizing x with
  | nil => rfl
  | cons v events ih => rw [List.foldl_cons, ih, since_perform]

theorem mem_log_run (he : e ∈ x.log) (events : List Event) : e ∈ (x.run events).log := by
  rw [run]
  induction events generalizing x with
  | nil => exact he
  | cons v events ih => exact ih (mem_log_perform he v)

/-! ## Pages that hold an entry -/

/-- Where nothing is received twice, exactly one page holds what was received. -/
theorem countP_mem_eq_one {pages : List (List WireEntry)} (h : pages.flatten.Nodup)
    (hw : w ∈ pages.flatten) : pages.countP (w ∈ ·) = 1 := by
  induction pages with
  | nil => cases hw
  | cons page pages ih =>
    rw [List.flatten_cons] at h hw
    obtain ⟨_, hrest, hdisjoint⟩ := List.nodup_append.1 h
    rw [List.countP_cons]
    by_cases hpage : w ∈ page
    · have hnone : pages.countP (w ∈ ·) = 0 := by
        rw [List.countP_eq_zero]
        intro other hother
        rw [decide_eq_true_iff]
        intro hin
        exact hdisjoint w hpage w (List.mem_flatten_of_mem hother hin) rfl
      rw [hnone, if_pos (decide_eq_true hpage)]
    · have hin : w ∈ pages.flatten := (List.mem_append.1 hw).resolve_left hpage
      rw [ih hrest hin, if_neg]
      rwa [decide_eq_true_iff]

/-- **Following loses nothing and repeats nothing.** A peer pulls from a node, page by page, while batches of any kind
are applied there. When the next page is empty, each entry that was in the log at the beginning, after the timestamp
from which the peer has begun, has come in exactly one page. All that has come is from the log, and comes in the order
of timestamp, collection and key. -/
theorem received_once (r : Responder) (since : Timestamp) (events : List Event)
    (h : (run { responder := r, since := since } events).CaughtUp) :
    let x := run { responder := r, since := since } events
    (∀ e ∈ r.database.storage.store.log.toList, since < e.timestamp →
        x.pages.countP (WireEntry.ofEntry e ∈ ·) = 1) ∧
      Ascending WireEntry.id x.pages.flatten ∧
      ∀ w ∈ x.pages.flatten, ∃ e ∈ x.log, WireEntry.ofEntry e = w := by
  intro x
  have hstart := sound_start r since
  have hx : x.Sound := hstart.run events
  refine ⟨?_, hx.ascending, hx.logged⟩
  intro e he hsince
  have hmissed : ¬ x.Missed e := by
    rw [hstart.missed_run events, not_or]
    exact ⟨not_missed_start r since, not_entersLate_of_mem_log he events⟩
  have hmem : WireEntry.ofEntry e ∈ x.received := by
    apply h.mem_received (mem_log_run he events) _ hmissed
    rwa [since_run]
  apply countP_mem_eq_one _ hmem
  exact hx.ascending.imp fun hlt heq => ne_of_compare_eq_lt hlt (congrArg WireEntry.id heq)

/-- A peer that takes four pages of one byte. Before the third one somebody applies a change that the peer is past, and
one that is still to come. The two changes with the same timestamp come on one page. -/
theorem received_once_four :
    let log : List Entry :=
      [.put "notes" "p" (.ofInt 1) ⟨100, 0, "b"⟩, .put "notes" "q" (.ofInt 2) ⟨200, 0, "b"⟩,
        .delete "tasks" "q" ⟨200, 0, "b"⟩, .put "notes" "s" .null ⟨300, 0, "b"⟩]
    let r : Responder :=
      { database := ⟨{ store := Store.applyAll {} log }, ⟨"b", ⟨300, 0, "b"⟩⟩⟩, token := "", budget := 1 }
    let x := run { responder := r, since := .zero } [.pull, .pull,
      .batch [] [.put "notes" "z" .null ⟨150, 0, "c"⟩, .delete "notes" "p" ⟨250, 0, "c"⟩], .pull, .pull]
    x.pages.map List.length = [1, 2, 1, 1] ∧ x.log.length = 6 ∧
      ∀ e ∈ log, x.pages.countP (WireEntry.ofEntry e ∈ ·) = 1 := by
  intro log r x
  have hcaught : x.CaughtUp := by
    rw [caughtUp_iff]
    decide +kernel
  obtain ⟨hpages, -, -⟩ := received_once r .zero _ hcaught
  refine ⟨by decide +kernel, by decide +kernel, ?_⟩
  intro e he
  have hlog : ∀ e ∈ log, e ∈ r.database.storage.store.log.toList ∧ .zero < e.timestamp := by
    decide +kernel
  exact hpages e (hlog e he).1 (hlog e he).2

end Following

end DocMesh
