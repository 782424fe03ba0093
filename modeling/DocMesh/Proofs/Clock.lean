/-
# Clocks go forward

Timestamps are linearly ordered, and whatever a clock does next, its last timestamp does not become smaller.
A timestamp that is issued is greater than all that the clock has issued or observed before, as long as there
is a millisecond left to borrow.

Main statements:

* `Clock.lt_next_iff`, `Clock.lt_next` : the issued timestamp exceeds the last one unless time has run out;
* `Clock.physical_le_next` : physical time never goes back;
* `Clock.le_observeAll`, `Clock.le_observeAll_of_mem` : what is observed is not forgotten.
-/
import DocMesh.Clock.Hybrid

namespace DocMesh

/-! ## The order of timestamps -/

namespace Timestamp

instance : Std.LawfulOrderOrd Timestamp := Std.instLawfulOrderOrd_ofOrd Timestamp

instance : Std.IsLinearOrder Timestamp := Std.IsLinearOrder.of_ord

instance : Std.LawfulOrderLT Timestamp := Std.instLawfulOrderLT_ofOrd

theorem lt_iff_compare (a b : Timestamp) : a < b ↔ compare a b = .lt := Iff.rfl

theorem lt_of_physical_lt {a b : Timestamp} (h : a.physical < b.physical) : a < b := by
  rw [lt_iff_compare, compare_def, Ordering.then_eq_lt, Std.compare_eq_lt]
  exact Or.inl h

theorem lt_of_counter_lt {a b : Timestamp} (h : a.physical = b.physical)
    (hc : a.counter < b.counter) : a < b := by
  rw [lt_iff_compare, compare_def, h, Std.compare_self, Ordering.eq_then, Ordering.then_eq_lt,
    Std.compare_eq_lt]
  exact Or.inl hc

theorem physical_le_of_le {a b : Timestamp} (h : a ≤ b) : a.physical ≤ b.physical := by
  rw [← Std.not_lt] at h ⊢
  intro hlt
  exact h (lt_of_physical_lt hlt)

end Timestamp

/-! ## The next timestamp -/

namespace Clock

variable {node : String} {last t : Timestamp} {now : Int64} {c : Clock} {ts : List Timestamp}

/-- Below the greatest time, the next millisecond is later. -/
theorem lt_nextMillisecond {p : Int64} (h : p ≠ Int64.maxValue) : p < nextMillisecond p := by
  have hmax : p.toInt ≠ Int64.maxValue.toInt := fun heq => h (Int64.toInt_inj.1 heq)
  have hle := Int64.toInt_le p
  have hge := Int64.le_toInt p
  rw [Int64.toInt_maxValue] at hmax hle
  rw [nextMillisecond, if_neg h, Int64.lt_iff_toInt_lt, Int64.toInt_add, Int64.toInt_one]
  rw [Int.bmod_eq_of_le] <;> omega

theorem le_nextMillisecond (p : Int64) : p ≤ nextMillisecond p := by
  by_cases h : p = Int64.maxValue
  · rw [nextMillisecond, if_pos h]
    exact Int64.le_refl p
  · exact Int64.le_of_lt (lt_nextMillisecond h)

/-- Below the greatest counter, the next one is greater. -/
theorem lt_counter_add_one {n : Int32} (h : n ≠ Int32.maxValue) : n < n + 1 := by
  have hmax : n.toInt ≠ Int32.maxValue.toInt := fun heq => h (Int32.toInt_inj.1 heq)
  have hle := Int32.toInt_le n
  have hge := Int32.le_toInt n
  rw [Int32.toInt_maxValue] at hmax hle
  rw [Int32.lt_iff_toInt_lt, Int32.toInt_add, Int32.toInt_one]
  rw [Int.bmod_eq_of_le] <;> omega

/-- A timestamp names the node that has issued it. -/
@[simp] theorem node_next (node : String) (last : Timestamp) (now : Int64) :
    (next node last now).node = node := by
  rw [next]
  split
  · rfl
  split <;> rfl

/-- Physical time never goes back. -/
theorem physical_le_next (node : String) (last : Timestamp) (now : Int64) :
    last.physical ≤ (next node last now).physical := by
  rw [next]
  split
  · exact Int64.le_of_lt ‹_›
  split
  · exact le_nextMillisecond last.physical
  · exact Int64.le_refl last.physical

/-- A timestamp is not earlier than the wall clock at which it is issued. -/
theorem le_physical_next (node : String) (last : Timestamp) (now : Int64) :
    now ≤ (next node last now).physical := by
  by_cases h : last.physical < now
  · rw [next, if_pos h]
    exact Int64.le_refl now
  · exact Int64.le_trans (Int64.not_lt.1 h) (physical_le_next node last now)

/-- The next timestamp exceeds the last one exactly as long as a later millisecond or a greater counter is left. -/
theorem lt_next_iff :
    last < next node last now ↔ last.physical < Int64.maxValue ∨ last.counter < Int32.maxValue := by
  constructor
  · intro h
    by_cases hp : last.physical < Int64.maxValue
    · exact Or.inl hp
    · -- no wall clock is ahead, so that only the counter can have grown
      have hnow : ¬ last.physical < now := fun hlt => hp (Int64.lt_of_lt_of_le hlt (Int64.le_maxValue now))
      have hmax : last.physical = Int64.maxValue :=
        Int64.le_antisymm (Int64.le_maxValue last.physical) (Int64.not_lt.1 hp)
      rw [next, if_neg hnow] at h
      split at h
      · rename_i hc
        rw [nextMillisecond, if_pos hmax] at h
        have hzero : 0 < last.counter := by
          rw [hc]
          decide
        have hback : ⟨last.physical, 0, node⟩ < last := Timestamp.lt_of_counter_lt rfl hzero
        exact absurd (Std.lt_trans h hback) Std.lt_irrefl
      · rename_i hc
        exact Or.inr (Int32.lt_iff_le_and_ne.2 ⟨Int32.le_maxValue last.counter, hc⟩)
  · intro h
    rw [next]
    split
    · exact Timestamp.lt_of_physical_lt ‹_›
    split
    · rename_i hc
      rcases h with hp | hlt
      · exact Timestamp.lt_of_physical_lt (lt_nextMillisecond (Int64.lt_iff_le_and_ne.1 hp).2)
      · exact absurd hc (Int32.lt_iff_le_and_ne.1 hlt).2
    · exact Timestamp.lt_of_counter_lt rfl (lt_counter_add_one ‹_›)

/-- The next timestamp exceeds the last one, unless physical time has run out. -/
theorem lt_next (h : (next node last now).physical < Int64.maxValue) : last < next node last now :=
  lt_next_iff.2 (Or.inl (Int64.lt_of_le_of_lt (physical_le_next node last now) h))

/-! ## Observing -/

@[simp] theorem node_observe (c : Clock) (t : Timestamp) : (c.observe t).node = c.node := by
  rw [observe]
  split <;> rfl

theorem le_observe (c : Clock) (t : Timestamp) : c.last ≤ (c.observe t).last := by
  rw [observe]
  split
  · exact Std.le_of_lt ‹_›
  · exact Std.le_refl c.last

theorem observed_le_observe (c : Clock) (t : Timestamp) : t ≤ (c.observe t).last := by
  rw [observe]
  split
  · exact Std.le_refl t
  · rwa [← Std.not_lt]

@[simp] theorem node_observeAll (c : Clock) (ts : List Timestamp) : (c.observeAll ts).node = c.node := by
  rw [observeAll]
  induction ts generalizing c with
  | nil => rfl
  | cons t ts ih => rw [List.foldl_cons, ih, node_observe]

/-- Observing never moves the clock back. -/
theorem le_observeAll (c : Clock) (ts : List Timestamp) : c.last ≤ (c.observeAll ts).last := by
  rw [observeAll]
  induction ts generalizing c with
  | nil => exact Std.le_refl c.last
  | cons t ts ih => exact Std.le_trans (c.le_observe t) (ih (c.observe t))

/-- The clock is not behind anything it has observed. -/
theorem le_observeAll_of_mem (c : Clock) (h : t ∈ ts) : t ≤ (c.observeAll ts).last := by
  rw [observeAll]
  induction ts generalizing c with
  | nil => cases h
  | cons u us ih =>
    rcases List.mem_cons.1 h with rfl | h
    · exact Std.le_trans (c.observed_le_observe t) ((c.observe t).le_observeAll us)
    · exact ih (c.observe u) h

/-! ## Starting -/

/-- A clock that is started at a positive time is not behind the log it is started from. -/
theorem le_seeded (node : String) (latest : Timestamp) (h : 0 < now) :
    latest ≤ (seeded node latest now).last := by
  rw [seeded]
  split
  · exact Std.le_refl latest
  · apply Std.le_of_lt
    apply Timestamp.lt_of_physical_lt
    exact Int64.lt_of_le_of_lt (Int64.not_lt.1 ‹_›) h

end Clock

end DocMesh
