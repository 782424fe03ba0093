/-
# What the subscribers of a store receive

Every change of a store that touches a collection is announced as one event, and every subscriber goes through the
events one by one, beginning with the first one after it has joined. The feed keeps the latest events only, but as long
as a subscriber is not too far behind all events that it has still to receive are among them. So it receives what is
announced, in the order in which it is announced: the events that it has received and those that are pending are
together the events since it has joined.

Main statements:

* `names_distinct` : an event names what was touched, each collection once, in the order of their first places;
* `Records.publish`, `Records.receive_of_end`, `Records.receive_of_pending` : the events of a feed, and what a subscriber
  finds at its place;
* `feed_perform` : what a change of a store announces;
* `Attends.perform`, `Attends.run` : what a subscriber has received, after one act and after a run;
* `events_match_changes` : the events that a subscriber receives are those of the changes.
-/
import DocMesh.Proofs.Store.History
import Mathlib.Data.List.Forall2
import Mathlib.Data.List.Induction

namespace DocMesh

namespace ChangeFeed

variable {names : List String} {name : String}

/-! ## Names without repetitions -/

theorem distinct_concat (names : List String) (name : String) :
    distinct (names ++ [name]) = if name ∈ distinct names then distinct names else distinct names ++ [name] := by
  simp [distinct, List.foldl_append]

theorem mem_distinct : name ∈ distinct names ↔ name ∈ names := by
  induction names using List.reverseRecOn with
  | nil => exact Iff.rfl
  | append_singleton names last ih =>
    rw [distinct_concat, List.mem_append, List.mem_singleton, ← ih]
    split_ifs with hlast
    · exact ⟨Or.inl, fun h => h.elim id fun heq => heq ▸ hlast⟩
    · rw [List.mem_append, List.mem_singleton]

theorem distinct_eq_nil_iff : distinct names = [] ↔ names = [] := by
  rw [List.eq_nil_iff_forall_not_mem, List.eq_nil_iff_forall_not_mem]
  exact forall_congr' fun name => not_congr mem_distinct

/-- The event names the collections that were touched, each once, in the order in which they were first met. -/
structure Names (event touched : List String) : Prop where
  mem_iff : ∀ name, name ∈ event ↔ name ∈ touched
  nodup : event.Nodup
  ordered : event.Pairwise fun a b => touched.idxOf a < touched.idxOf b

/-- **What an event names.** -/
theorem names_distinct (touched : List String) : Names (distinct touched) touched := by
  have hordered : (distinct touched).Pairwise fun a b => touched.idxOf a < touched.idxOf b := by
    induction touched using List.reverseRecOn with
    | nil => exact List.Pairwise.nil
    | append_singleton names last ih =>
      have hplace : ∀ name ∈ distinct names, (names ++ [last]).idxOf name = names.idxOf name := fun name hname =>
        List.idxOf_append_of_mem (mem_distinct.1 hname)
      have hnames : (distinct names).Pairwise fun a b => (names ++ [last]).idxOf a < (names ++ [last]).idxOf b := by
        refine ih.imp_of_mem ?_
        intro a b ha hb hlt
        rwa [hplace a ha, hplace b hb]
      rw [distinct_concat]
      split_ifs with hlast
      · exact hnames
      · -- the last name is new, and its first place is behind all others
        refine List.pairwise_append.2 ⟨hnames, List.pairwise_singleton _ last, ?_⟩
        intro a ha b hb
        rw [List.mem_singleton.1 hb, hplace a ha, List.idxOf_append_of_notMem (mt mem_distinct.2 hlast)]
        exact Nat.lt_of_lt_of_le (List.idxOf_lt_length_of_mem (mem_distinct.1 ha)) (Nat.le_add_right _ _)
  refine ⟨fun _ => mem_distinct, hordered.imp ?_, hordered⟩
  rintro a _ hlt rfl
  exact absurd hlt (Nat.lt_irrefl _)

/-! ## The events of a feed -/

variable {f : ChangeFeed} {events : List ChangeEvent} {s : Subscription}

/-- What is announced of a change that has touched the given collections. -/
def announced (touched : List String) : List ChangeEvent := if touched = [] then [] else [distinct touched]

/-- These are all events that the feed has published, in their order. The latest ones are kept, the last one first. -/
structure Records (f : ChangeFeed) (events : List ChangeEvent) : Prop where
  published : f.published = events.length
  recent : f.recent = events.reverse.take capacity
  isOpen : f.closed = false

theorem records_new : Records {} [] := ⟨rfl, rfl, rfl⟩

theorem Records.publish (h : f.Records events) (touched : List String) :
    (f.publish touched).Records (events ++ announced touched) := by
  rw [announced, ChangeFeed.publish]
  split
  · rename_i hnil
    rw [if_pos (distinct_eq_nil_iff.1 hnil), List.append_nil]
    exact h
  · rename_i hne
    rw [if_neg (mt distinct_eq_nil_iff.2 hne)]
    refine ⟨?_, ?_, h.isOpen⟩
    · rw [List.length_append, ← h.published]
      rfl
    · -- of the kept events the one that drops out would be dropped anyway
      rw [List.reverse_append, List.reverse_singleton, List.singleton_append, h.recent, capacity, List.take_succ_cons,
        List.take_succ_cons, List.take_take, Nat.min_eq_left (Nat.le_succ _)]

/-- A subscriber whose place is behind all events finds none. -/
theorem Records.receive_of_end (h : f.Records events) (hplace : s.position = events.length) :
    f.receive s = (.empty, s) := by
  rw [ChangeFeed.receive, h.published, hplace, Nat.sub_self, h.isOpen]
  rfl

/-- **What a subscriber finds** whose place is in front of an event, as long as it is not too far behind: this event. -/
theorem Records.receive_of_pending {seen pending : List ChangeEvent} {event : ChangeEvent}
    (h : f.Records (seen ++ event :: pending)) (hplace : s.position = seen.length)
    (hbehind : pending.length < capacity) : f.receive s = (.event event, ⟨s.position + 1⟩) := by
  have hbehind_eq : f.published - s.position = pending.length + 1 := by
    rw [h.published, hplace, List.length_append, Nat.add_sub_cancel_left, List.length_cons]
  have hlength : pending.length < f.recent.length := by
    rw [h.recent, List.length_take, List.length_reverse, List.length_append, List.length_cons]
    omega
  have hevent : f.recent[pending.length]? = some event := by
    rw [h.recent, List.getElem?_take_of_lt hbehind, List.reverse_append, List.reverse_cons, List.append_assoc,
      ← List.length_reverse, List.getElem?_append_right (Nat.le_refl _), Nat.sub_self]
    rfl
  rw [ChangeFeed.receive, hbehind_eq]
  dsimp only
  rw [if_neg (by omega), List.getD_eq_getElem?_getD, hevent, Option.getD_some]

end ChangeFeed

namespace Store

/-! ## What changes announce -/

/-- The collections that a change touches, document by document and then entry by entry. A batch that is refused
touches none, and neither does what is done with the register of peers. -/
def touched (s : Store) : Change → List String
  | .batch documents entries =>
    match s.applyBatch documents entries with
    | .ok _ => documents.map (·.collection) ++ entries.map (·.collection)
    | .error _ => []
  | .document d => [d.collection]
  | .peer _ | .noPeer _ => []

/-- A change announces what it touches. -/
theorem feed_perform (s : Store) (c : Change) : (s.perform c).feed = s.feed.publish (s.touched c) := by
  cases c with
  | batch documents entries =>
    rw [perform, touched]
    rcases h : s.applyBatch documents entries with fault | ⟨s', n⟩
    · rfl
    · obtain ⟨-, rfl, -⟩ := eq_of_applyBatch h
      rfl
  | document d => rfl
  | peer p =>
    obtain ⟨peers, hpeers⟩ := s.exists_perform_peer_eq p
    rw [hpeers]
    rfl
  | noPeer id => rfl

end Store

/-! ## Subscribers -/

/-- The event that was found, if it is one. -/
def Received.event? : Received → Option ChangeEvent
  | event e => some e
  | lagged _ | empty | closed => none

/-- A subscriber, and what it has found whenever it has looked. -/
structure Subscriber where
  place : Subscription
  found : List Received := []

namespace Subscriber

/-- Looks for the next event. -/
def look (s : Subscriber) (f : ChangeFeed) : Subscriber :=
  ⟨(f.receive s.place).2, s.found ++ [(f.receive s.place).1]⟩

/-- The events that the subscriber has received. -/
def events (s : Subscriber) : List ChangeEvent := s.found.filterMap Received.event?

/-- Before the subscriber has joined there were the `earlier` events. It has received those that it has `heard`, the
`pending` ones are still to come, and it has never missed any. -/
structure Hears (s : Subscriber) (f : ChangeFeed) (earlier heard pending : List ChangeEvent) : Prop where
  records : f.Records (earlier ++ heard ++ pending)
  position : s.place.position = (earlier ++ heard).length
  events_eq : s.events = heard
  found : ∀ r ∈ s.found, r = .empty ∨ ∃ e, r = .event e

variable {s : Subscriber} {f : ChangeFeed} {earlier heard pending : List ChangeEvent}

theorem Hears.publish (h : s.Hears f earlier heard pending) (touched : List String) :
    s.Hears (f.publish touched) earlier heard (pending ++ ChangeFeed.announced touched) := by
  have hrecords := h.records.publish touched
  rw [List.append_assoc] at hrecords
  exact ⟨hrecords, h.position, h.events_eq, h.found⟩

theorem Hears.behind_eq (h : s.Hears f earlier heard pending) : f.published - s.place.position = pending.length := by
  have hpublished := h.records.published
  rw [List.length_append, ← h.position] at hpublished
  rw [hpublished, Nat.add_sub_cancel_left]

/-- A subscriber without pending events finds none. -/
theorem Hears.look_nil (h : s.Hears f earlier heard []) :
    (s.look f).Hears f earlier heard [] ∧ (s.look f).found = s.found ++ [.empty] := by
  have hreceive : f.receive s.place = (.empty, s.place) :=
    h.records.receive_of_end (by rw [h.position, List.append_nil])
  rw [look, hreceive]
  refine ⟨⟨h.records, h.position, ?_, ?_⟩, rfl⟩
  · rw [← h.events_eq, events, events, List.filterMap_append]
    exact List.append_nil _
  · intro r hr
    rcases List.mem_append.1 hr with hr | hr
    · exact h.found r hr
    · exact Or.inl (List.mem_singleton.1 hr)

/-- A subscriber that is not too far behind finds the first pending event. -/
theorem Hears.look_cons {event : ChangeEvent} (h : s.Hears f earlier heard (event :: pending))
    (hbehind : pending.length < ChangeFeed.capacity) :
    (s.look f).Hears f earlier (heard ++ [event]) pending ∧ (s.look f).found = s.found ++ [.event event] := by
  have hreceive : f.receive s.place = (.event event, ⟨s.place.position + 1⟩) :=
    h.records.receive_of_pending h.position hbehind
  rw [look, hreceive]
  refine ⟨⟨?_, ?_, ?_, ?_⟩, rfl⟩
  · rw [← List.append_assoc, List.append_assoc, List.singleton_append]
    exact h.records
  · rw [← List.append_assoc, List.length_append, ← h.position]
    rfl
  · rw [← h.events_eq, events, events, List.filterMap_append]
    rfl
  · intro r hr
    rcases List.mem_append.1 hr with hr | hr
    · exact h.found r hr
    · exact Or.inr ⟨event, List.mem_singleton.1 hr⟩

end Subscriber

/-! ## A store with subscribers -/

/-- A store and its subscribers, in the order in which they have joined. -/
structure Audience where
  store : Store
  subscribers : List Subscriber := []

/-- What is done with the store, or by a subscriber. -/
inductive Act where
  /-- A program changes the store. -/
  | change (c : Store.Change)
  /-- One more subscriber joins. -/
  | join
  /-- The subscriber with this number looks for the next event. -/
  | look (k : Nat)
  deriving Inhabited

namespace Audience

/-- What an act does. -/
def perform (x : Audience) : Act → Audience
  | .change c => { x with store := x.store.perform c }
  | .join => { x with subscribers := x.subscribers ++ [⟨x.store.feed.subscribe, []⟩] }
  | .look k => { x with subscribers := x.subscribers.modify k (·.look x.store.feed) }

/-- What the acts do one after the other. -/
def run (x : Audience) (acts : List Act) : Audience := acts.foldl perform x

/-- A new store, without subscribers. -/
def start (r : Resolver) : Audience := { store := { resolver := r } }

/-- What the subscriber with this number has found. -/
def found (x : Audience) (k : Nat) : List Received := (x.subscribers[k]?.map (·.found)).getD []

/-- The events that the subscriber with this number has received. -/
def events (x : Audience) (k : Nat) : List ChangeEvent := (x.found k).filterMap Received.event?

/-- How many events the subscriber with this number is behind. -/
def behind (x : Audience) (k : Nat) : Nat :=
  (x.subscribers[k]?.map (x.store.feed.published - ·.place.position)).getD 0

/-- At no time in the run is the subscriber further behind than the number of events that are kept. -/
def KeepsUp (x : Audience) (k : Nat) : List Act → Prop
  | [] => x.behind k ≤ ChangeFeed.capacity
  | a :: acts => x.behind k ≤ ChangeFeed.capacity ∧ (x.perform a).KeepsUp k acts

instance decidableKeepsUp : (x : Audience) → (k : Nat) → (acts : List Act) → Decidable (x.KeepsUp k acts)
  | x, k, [] => inferInstanceAs (Decidable (x.behind k ≤ ChangeFeed.capacity))
  | x, k, a :: acts =>
    have := decidableKeepsUp (x.perform a) k acts
    inferInstanceAs (Decidable (x.behind k ≤ ChangeFeed.capacity ∧ (x.perform a).KeepsUp k acts))

/-- The collections that an act touches. -/
def touched (x : Audience) : Act → List String
  | .change c => x.store.touched c
  | .join | .look _ => []

/-- The collections that the acts of a run touch, act by act, without the acts that touch none. -/
def touchings (x : Audience) : List Act → List (List String)
  | [] => []
  | a :: acts =>
    if x.touched a = [] then (x.perform a).touchings acts else x.touched a :: (x.perform a).touchings acts

variable {x : Audience} {k : Nat} {earlier heard pending : List ChangeEvent}

theorem run_cons (x : Audience) (a : Act) (acts : List Act) : x.run (a :: acts) = (x.perform a).run acts := rfl

/-- The feed after an act. -/
theorem feed_perform (x : Audience) (a : Act) :
    (x.perform a).store.feed = x.store.feed.publish (x.touched a) := by
  cases a with
  | change c => exact x.store.feed_perform c
  | join => rfl
  | look k => rfl

/-- The subscriber with this number has received what it `heard`, and the `pending` events are still to come. -/
def Attends (x : Audience) (k : Nat) (earlier heard pending : List ChangeEvent) : Prop :=
  ∃ s, x.subscribers[k]? = some s ∧ s.Hears x.store.feed earlier heard pending

theorem Attends.behind_eq (h : x.Attends k earlier heard pending) : x.behind k = pending.length := by
  obtain ⟨s, hs, h⟩ := h
  rw [behind, hs, ← h.behind_eq]
  rfl

theorem Attends.events_eq (h : x.Attends k earlier heard pending) : x.events k = heard := by
  obtain ⟨s, hs, h⟩ := h
  rw [events, found, hs]
  exact h.events_eq

theorem Attends.mem_found {r : Received} (h : x.Attends k earlier heard pending) (hr : r ∈ x.found k) :
    r = .empty ∨ ∃ e, r = .event e := by
  obtain ⟨s, hs, h⟩ := h
  rw [found, hs] at hr
  exact h.found r hr

theorem KeepsUp.behind_le {acts : List Act} (h : x.KeepsUp k acts) : (x.run acts).behind k ≤ ChangeFeed.capacity := by
  induction acts generalizing x with
  | nil => exact h
  | cons a acts ih => exact ih h.2

/-- A subscriber without pending events looks, and finds none. -/
theorem Attends.look_nil (h : x.Attends k earlier heard []) :
    (x.perform (.look k)).Attends k earlier heard [] ∧ (x.perform (.look k)).found k = x.found k ++ [.empty] := by
  obtain ⟨s, hs, h⟩ := h
  have hk : (x.perform (.look k)).subscribers[k]? = some (s.look x.store.feed) := by
    rw [perform, List.getElem?_modify_eq, hs]
    rfl
  obtain ⟨hlook, hfound⟩ := h.look_nil
  refine ⟨⟨_, hk, hlook⟩, ?_⟩
  rw [found, found, hk, hs]
  exact hfound

/-- A subscriber that is not too far behind looks, and finds the first pending event. -/
theorem Attends.look_cons {event : ChangeEvent} (h : x.Attends k earlier heard (event :: pending))
    (hbehind : pending.length < ChangeFeed.capacity) :
    (x.perform (.look k)).Attends k earlier (heard ++ [event]) pending ∧
      (x.perform (.look k)).found k = x.found k ++ [.event event] := by
  obtain ⟨s, hs, h⟩ := h
  have hk : (x.perform (.look k)).subscribers[k]? = some (s.look x.store.feed) := by
    rw [perform, List.getElem?_modify_eq, hs]
    rfl
  obtain ⟨hlook, hfound⟩ := h.look_cons hbehind
  refine ⟨⟨_, hk, hlook⟩, ?_⟩
  rw [found, found, hk, hs]
  exact hfound

/-- An act in which the subscriber does not look adds to the pending events what is announced. -/
theorem Attends.perform_of_ne {a : Act} (h : x.Attends k earlier heard pending) (ha : a ≠ .look k) :
    (x.perform a).Attends k earlier heard (pending ++ ChangeFeed.announced (x.touched a)) := by
  obtain ⟨s, hs, h⟩ := h
  refine ⟨s, ?_, ?_⟩
  · cases a with
    | change c => exact hs
    | join => exact List.getElem?_append_left (List.getElem?_eq_some_iff.1 hs).1 ▸ hs
    | look i =>
      rw [perform, List.getElem?_modify_ne]
      · exact hs
      · rintro rfl
        exact ha rfl
  · rw [feed_perform]
    exact h.publish _

/-- **One act**: what was heard or pending is so still, in this order, and what is announced comes behind it. -/
theorem Attends.perform (h : x.Attends k earlier heard pending) (hbehind : x.behind k ≤ ChangeFeed.capacity) (a : Act) :
    ∃ heard' pending', (x.perform a).Attends k earlier heard' pending' ∧
      heard' ++ pending' = heard ++ pending ++ ChangeFeed.announced (x.touched a) := by
  by_cases ha : a = .look k
  · subst ha
    rw [touched, ChangeFeed.announced, if_pos rfl, List.append_nil]
    cases pending with
    | nil => exact ⟨heard, [], h.look_nil.1, rfl⟩
    | cons event pending =>
      rw [h.behind_eq, List.length_cons] at hbehind
      exact ⟨heard ++ [event], pending, (h.look_cons hbehind).1, List.append_assoc heard [event] pending⟩
  · exact ⟨heard, _, h.perform_of_ne ha, (List.append_assoc heard pending _).symm⟩

/-- **A run**: a subscriber that keeps up has heard, or has still to hear, what is announced in the run. -/
theorem Attends.run {acts : List Act} (h : x.Attends k earlier heard pending) (hkeeps : x.KeepsUp k acts) :
    ∃ heard' pending', (x.run acts).Attends k earlier heard' pending' ∧
      heard' ++ pending' = heard ++ pending ++ (x.touchings acts).map ChangeFeed.distinct := by
  induction acts generalizing x heard pending with
  | nil => exact ⟨heard, pending, h, (List.append_nil _).symm⟩
  | cons a acts ih =>
    obtain ⟨hbehind, hkeeps⟩ := hkeeps
    obtain ⟨heard', pending', hperform, heq⟩ := h.perform hbehind a
    obtain ⟨heard'', pending'', hrun, heq'⟩ := ih hperform hkeeps
    refine ⟨heard'', pending'', hrun, ?_⟩
    rw [heq', heq, touchings, ChangeFeed.announced]
    split_ifs with htouched
    · rw [List.append_nil]
    · rw [List.map_cons, List.append_assoc (heard ++ pending), List.singleton_append]

/-- A subscriber that is not too far behind and looks until it finds nothing receives all pending events. -/
theorem Attends.found_run (h : x.Attends k earlier heard pending) (hbehind : pending.length ≤ ChangeFeed.capacity) :
    (x.run (List.replicate (pending.length + 1) (.look k))).found k
      = x.found k ++ pending.map .event ++ [.empty] := by
  induction pending generalizing x heard with
  | nil => exact h.look_nil.2.trans (by rw [List.map_nil, List.append_nil])
  | cons event pending ih =>
    obtain ⟨hlook, hfound⟩ := h.look_cons hbehind
    rw [List.length_cons, List.replicate_succ, run_cons, ih hlook (Nat.le_of_lt hbehind), hfound, List.map_cons]
    simp

/-- Whatever has been done with a store that was new, its feed has some events. -/
theorem exists_records (r : Resolver) (acts : List Act) : ∃ events, ((start r).run acts).store.feed.Records events := by
  suffices hall : ∀ (x : Audience) (events : List ChangeEvent), x.store.feed.Records events →
      ∃ events, (x.run acts).store.feed.Records events from hall _ [] ChangeFeed.records_new
  intro x events h
  induction acts generalizing x events with
  | nil => exact ⟨events, h⟩
  | cons a acts ih =>
    refine ih (x.perform a) (events ++ ChangeFeed.announced (x.touched a)) ?_
    rw [feed_perform]
    exact h.publish _

/-- A subscriber that has just joined has heard nothing, and nothing is pending. -/
theorem exists_attends_join (r : Resolver) (acts : List Act) :
    let x := (start r).run acts
    ∃ earlier, (x.perform .join).Attends x.subscribers.length earlier [] [] := by
  intro x
  obtain ⟨events, h⟩ := exists_records r acts
  refine ⟨events, ⟨x.store.feed.subscribe, []⟩, ?_, ?_, ?_, rfl, List.forall_mem_nil _⟩
  · rw [perform, List.getElem?_append_right (Nat.le_refl _), Nat.sub_self]
    rfl
  · rw [List.append_nil, List.append_nil]
    exact h
  · rw [List.append_nil, ← h.published]
    rfl

/-- **The events of a subscriber are those of the changes.** A subscriber joins at any time in the life of a store, and
never falls further behind than the number of events that are kept. Then whatever it finds is an event or nothing yet;
the events that it has received and those that are pending correspond one by one, in this order, to the changes since
it has joined that were not refused and touched a collection, each naming the collections that its change touched; as
many are pending as the subscriber is behind; and if it now looks until there is nothing more it receives these. -/
theorem events_match_changes (r : Resolver) (before after : List Act)
    (hkeeps : (((start r).run before).perform .join).KeepsUp ((start r).run before).subscribers.length after) :
    let k := ((start r).run before).subscribers.length
    let x := ((start r).run before).perform .join
    let y := x.run after
    (∀ found ∈ y.found k, found = .empty ∨ ∃ event, found = .event event) ∧
      ∃ pending : List ChangeEvent,
        List.Forall₂ ChangeFeed.Names (y.events k ++ pending) (x.touchings after) ∧
        pending.length = y.behind k ∧
        (y.run (List.replicate (pending.length + 1) (.look k))).found k
          = y.found k ++ pending.map .event ++ [.empty] := by
  intro k x y
  obtain ⟨earlier, hjoin⟩ := exists_attends_join r before
  obtain ⟨heard, pending, hrun, heq⟩ := hjoin.run hkeeps
  have hbehind : pending.length ≤ ChangeFeed.capacity := hrun.behind_eq ▸ hkeeps.behind_le
  refine ⟨fun found => hrun.mem_found, pending, ?_, hrun.behind_eq.symm, hrun.found_run hbehind⟩
  rw [hrun.events_eq, heq, List.nil_append, List.nil_append, List.forall₂_map_left_iff]
  exact List.forall₂_same.2 fun touched _ => ChangeFeed.names_distinct touched

/-- The second of two subscribers. It looks once, between a batch and one that is refused, and is one event behind in
the end. -/
theorem events_match_changes_two :
    let d : Document := ⟨"snap", "s", .ofInt 0, ⟨1, 0, "a"⟩, false⟩
    let u : Entry := .put "users" "u" (.ofInt 1) ⟨2, 0, "a"⟩
    let t : Entry := .delete "todos" "t" ⟨3, 0, "a"⟩
    let before : List Act := [.change (.document d), .join]
    let after : List Act :=
      [.change (.batch [d] [u, t, u]), .look 1, .change (.batch [] [t, .delete "" "t" ⟨4, 0, "a"⟩]),
        .change (.batch [] []), .look 0, .change (.document d)]
    let x := ((start .recursiveMerge).run before).perform .join
    x.KeepsUp 1 after ∧ (x.run after).found 1 = [.event ["snap", "users", "todos"]] ∧
      x.touchings after = [["snap", "users", "todos", "users"], ["snap"]] ∧
      ∃ pending : List ChangeEvent,
        List.Forall₂ ChangeFeed.Names (["snap", "users", "todos"] :: pending) (x.touchings after) ∧ pending.length = 1 := by
  intro d u t before after x
  have hkeeps : x.KeepsUp 1 after := by decide +kernel
  obtain ⟨-, pending, hnames, hlength, -⟩ := events_match_changes .recursiveMerge before after hkeeps
  have hevents : (x.run after).events 1 = [["snap", "users", "todos"]] := by decide +kernel
  have hbehind : (x.run after).behind 1 = 1 := by decide +kernel
  have hnames : List.Forall₂ ChangeFeed.Names ((x.run after).events 1 ++ pending) (x.touchings after) := hnames
  rw [hevents] at hnames
  exact ⟨hkeeps, by decide +kernel, by decide +kernel, pending, hnames, hlength.trans hbehind⟩

end Audience

end DocMesh
