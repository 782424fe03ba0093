/-
# What a clock has known before it ticks

A clock is started with any timestamp, ticks at whatever time its wall clock shows, and observes timestamps of other
nodes, in any order. What it issues exceeds all timestamps that it has known until then, though it remembers
only the greatest of them, and even if that one is of another node or has a used-up counter.

Main statements:

* `le_last_run` : the clock is not behind anything that it has known;
* `last_run_mem` : what it remembers is one of the timestamps that it has known;
* `issued_after_known` : a timestamp that is issued comes after all of them.
-/
import DocMesh.Proofs.Clock

namespace DocMesh

/-- There is a later millisecond or a greater counter, so that a clock can go on from here. -/
def Timestamp.HasNext (t : Timestamp) : Prop := t.physical < Int64.maxValue ∨ t.counter < Int32.maxValue

namespace Clock

variable {c : Clock} {events : List Event} {u : Timestamp}

/-! ## Histories -/

/-- What happens to a clock. -/
inductive Event where
  /-- It issues a timestamp at wall-clock time `now`. -/
  | tick (now : Int64)
  /-- It takes note of a timestamp of another node. -/
  | observe (t : Timestamp)
  deriving DecidableEq

/-- The clock after an event. -/
def perform (c : Clock) : Event → Clock
  | .tick now => (c.tick now).2
  | .observe t => c.observe t

/-- The clock after the events, one after the other. -/
def run (c : Clock) (events : List Event) : Clock := events.foldl perform c

/-- The timestamp that an event brings: the one that is issued, or the one that is observed. -/
def stamp (c : Clock) : Event → Timestamp
  | .tick now => (c.tick now).1
  | .observe t => t

/-- The timestamps that the events bring, in their order. -/
def stamps (c : Clock) : List Event → List Timestamp
  | [] => []
  | e :: es => c.stamp e :: (c.perform e).stamps es

/-- The timestamps that the clock has known: the one it was started with, and those that the events have brought. -/
def known (c : Clock) (events : List Event) : List Timestamp := c.last :: c.stamps events

/-! ## One event -/

@[simp] theorem node_perform (c : Clock) (e : Event) : (c.perform e).node = c.node := by
  cases e with
  | tick now => rfl
  | observe t => exact c.node_observe t

/-- An event leaves the last timestamp as it is, or puts the one that it brings in its place. -/
theorem last_perform (c : Clock) (e : Event) :
    (c.perform e).last = c.last ∨ (c.perform e).last = c.stamp e := by
  cases e with
  | tick now => exact Or.inr rfl
  | observe t =>
    rw [perform, observe]
    split
    · exact Or.inr rfl
    · exact Or.inl rfl

/-- An event does not move the clock back. -/
theorem last_le_perform (h : c.last.HasNext) (e : Event) : c.last ≤ (c.perform e).last := by
  cases e with
  | tick now => exact Std.le_of_lt (lt_next_iff.2 h)
  | observe t => exact c.le_observe t

/-- After an event the clock is not behind what the event has brought. -/
theorem stamp_le_perform (c : Clock) (e : Event) : c.stamp e ≤ (c.perform e).last := by
  cases e with
  | tick now => exact Std.le_refl _
  | observe t => exact c.observed_le_observe t

/-- What is known from an event on was known before, and is not more than what was known. -/
theorem mem_known_of_perform {e : Event} (hu : u ∈ (c.perform e).known events) : u ∈ c.known (e :: events) := by
  rw [known, stamps]
  rcases List.mem_cons.1 hu with rfl | hu
  · rcases c.last_perform e with h | h
    · rw [h]
      exact List.mem_cons_self
    · rw [h]
      exact List.mem_cons_of_mem c.last List.mem_cons_self
  · exact List.mem_cons_of_mem c.last (List.mem_cons_of_mem (c.stamp e) hu)

/-! ## Many events -/

@[simp] theorem node_run (c : Clock) (events : List Event) : (c.run events).node = c.node := by
  rw [run]
  induction events generalizing c with
  | nil => rfl
  | cons e es ih => rw [List.foldl_cons, ih, node_perform]

/-- What the clock remembers is one of the timestamps that it has known. -/
theorem last_run_mem (c : Clock) (events : List Event) : (c.run events).last ∈ c.known events := by
  induction events generalizing c with
  | nil => exact List.mem_cons_self
  | cons e es ih => exact mem_known_of_perform (ih (c.perform e))

/-- The clock is not behind anything that it has known, as long as it can go on from there. -/
theorem le_last_run (h : ∀ v ∈ c.known events, v.HasNext) (hu : u ∈ c.known events) :
    u ≤ (c.run events).last := by
  induction events generalizing c u with
  | nil =>
    rw [List.mem_singleton.1 hu]
    exact Std.le_refl c.last
  | cons e es ih =>
    have hrest : ∀ v ∈ (c.perform e).known es, v ≤ (c.run (e :: es)).last := fun v hv =>
      ih (fun w hw => h w (mem_known_of_perform hw)) hv
    have hlast := hrest (c.perform e).last List.mem_cons_self
    rw [known, stamps, List.mem_cons, List.mem_cons] at hu
    rcases hu with rfl | rfl | hu
    · exact Std.le_trans (last_le_perform (h c.last List.mem_cons_self) e) hlast
    · exact Std.le_trans (c.stamp_le_perform e) hlast
    · exact hrest u (List.mem_cons_of_mem _ hu)

/-- **A clock issues timestamps that come after all that it has known.** Whatever timestamp it was started with, and
whatever it has issued and observed since, at any times of its wall clock: the next timestamp names the node of
the clock, is not earlier than its wall clock, and is greater than the first timestamp, than all that were issued and
than all that were observed, as long as none of these has both the last millisecond and a used-up counter. -/
theorem issued_after_known (c : Clock) (events : List Event) (now : Int64) :
    let t := ((c.run events).tick now).1
    t.node = c.node ∧ now ≤ t.physical ∧
      ((∀ u ∈ c.known events, u.physical < Int64.maxValue ∨ u.counter < Int32.maxValue) →
        ∀ u ∈ c.known events, u < t) := by
  intro t
  refine ⟨?_, le_physical_next _ _ now, ?_⟩
  · exact (node_next _ _ now).trans (c.node_run events)
  · intro h u hu
    have hlast := h (c.run events).last (c.last_run_mem events)
    exact Std.lt_of_le_of_lt (le_last_run h hu) (lt_next_iff.2 hlast)

/-- A clock that starts with a timestamp of another node, observes one with a used-up counter, and ticks while its wall
clock stands still. -/
theorem issued_after_known_used_up :
    let c : Clock := ⟨"a", ⟨1000, Int32.maxValue, "z"⟩⟩
    let events : List Event :=
      [.tick 900, .observe ⟨5000, Int32.maxValue, "z"⟩, .tick 900, .observe ⟨5001, 7, "b"⟩, .observe ⟨40, 0, "b"⟩]
    let t := ((c.run events).tick 900).1
    t = ⟨5001, 8, "a"⟩ ∧ c.known events = [⟨1000, Int32.maxValue, "z"⟩, ⟨1001, 0, "a"⟩,
        ⟨5000, Int32.maxValue, "z"⟩, ⟨5001, 0, "a"⟩, ⟨5001, 7, "b"⟩, ⟨40, 0, "b"⟩] ∧
      900 ≤ t.physical ∧ ∀ u ∈ c.known events, u < t := by
  intro c events t
  obtain ⟨-, hnow, hafter⟩ := issued_after_known c events 900
  exact ⟨by decide +kernel, by decide +kernel, hnow, hafter (by decide +kernel)⟩

end Clock

end DocMesh
