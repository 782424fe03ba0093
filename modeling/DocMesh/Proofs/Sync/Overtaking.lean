/-
# Writers that overtake each other

A local write is stamped first and applied afterwards. In between other writers may be stamped and applied, and a
peer that follows the node may pull. A write that is applied when the peer is past its timestamp already is hidden
from the peer for good.

Main statements:

* `database_run_write` : a local write is a stamp and an application;
* `missed_run` : the writes that a peer misses are the overtaken ones;
* `hidden_iff_overtaken` : what is hidden from a peer that has caught up, and that nothing is if writes do not overlap;
* `write_hidden` : two writers, and a write that the peer never receives.
-/
import DocMesh.Proofs.Database.Dominance
import DocMesh.Proofs.Sync.Following

namespace DocMesh

namespace Following

variable {x : Following} {e a : Entry}

/-- A batch of one entry brings nothing else into the log. -/
theorem mem_log_perform_batch (he : e ∈ (x.perform (.batch [] [a])).log) : e ∈ x.log ∨ e = a := by
  rw [perform] at he
  split at he
  · rename_i db n hb
    rcases hfault : x.responder.database.storage.fault with _ | reason
    · obtain ⟨s, hs, rfl⟩ := Database.applyBatch_eq_ok hfault hb
      obtain ⟨_, rfl⟩ := Store.eq_of_applyBatch_nil hs
      exact (Store.mem_of_mem_log_applyAll he).imp_right List.mem_singleton.1
    · rw [Database.applyBatch, Storage.update, hfault] at hb
      cases hb
  · exact Or.inl he

/-- The clock of the node. -/
def clock (x : Following) : Clock := x.responder.database.clock

theorem clock_perform_batch (x : Following) (documents : List Document) (entries : List Entry) :
    (x.perform (.batch documents entries)).clock = x.clock := by
  rw [perform]
  split
  · rename_i hb
    exact Database.clock_of_applyBatch hb
  · rfl

theorem clock_perform_pull (x : Following) : (x.perform .pull).clock = x.clock := by
  rcases x.perform_pull with h | h <;> rw [h]
  rfl

end Following

/-! ## Writers and a peer -/

/-- A node with writers, and a peer that follows it. -/
structure Traffic where
  following : Following
  /-- The writes that are stamped and not yet applied. -/
  pending : List Entry := []

/-- What one of the writers does next, or the peer. -/
inductive Turn where
  /-- A writer has its change stamped at wall-clock time `now`. -/
  | stamp (collection key : String) (operation : Operation) (payload : Option Json) (now : Int64)
  /-- A writer applies its stamped change. -/
  | apply (e : Entry)
  /-- The peer asks for the next page. -/
  | pull
  deriving DecidableEq

/-- Does a write begin with the turn? -/
def Turn.begins : Turn → Bool
  | stamp .. => true
  | apply _ | pull => false

namespace Traffic

/-- What a turn does. A change without a key is refused before it is stamped. -/
def perform (x : Traffic) : Turn → Traffic
  | .stamp collection key operation payload now =>
    if key.isEmpty then x
    else
      { following := x.following.perform (.tick now),
        pending := ⟨collection, key, operation, payload, (x.following.clock.tick now).1⟩ :: x.pending }
  | .apply e =>
    if e ∈ x.pending then
      { following := x.following.perform (.batch [] [e]), pending := x.pending.erase e }
    else x
  | .pull => { x with following := x.following.perform .pull }

/-- What the turns do one after the other. -/
def run (x : Traffic) (turns : List Turn) : Traffic := turns.foldl perform x

/-- A node that no writer has begun to write to, and a peer that has received nothing. -/
def start (r : Responder) (since : Timestamp) : Traffic :=
  { following := { responder := r, since := since } }

variable {x : Traffic} {t : Turn} {turns : List Turn} {e : Entry} {collection key : String}
  {operation : Operation} {payload : Option Json} {now : Int64}

theorem run_cons (x : Traffic) (t : Turn) (turns : List Turn) :
    x.run (t :: turns) = (x.perform t).run turns := rfl

/-- A local write that nobody interrupts is a stamp and an application. -/
theorem database_run_write (x : Traffic) (collection : String) (operation : Operation)
    (payload : Option Json) (now : Int64) (hkey : key ≠ "") :
    (x.run [.stamp collection key operation payload now,
        .apply ⟨collection, key, operation, payload, (x.following.clock.tick now).1⟩]).following.responder.database
      = (x.following.responder.database.write collection key operation payload now).2 := by
  have hne : key.isEmpty = false := by
    rw [← Bool.not_eq_true, String.isEmpty_iff]
    exact hkey
  rw [Database.write_eq _ collection operation payload now hkey, run_cons, run_cons, perform, hne,
    if_neg Bool.false_ne_true, perform, if_pos List.mem_cons_self]
  show (Following.perform _ _).responder.database = _
  rw [Following.perform, Following.perform]
  dsimp only [Following.clock, Database.tick]
  generalize Database.applyBatch _ _ _ = result
  rcases result with fault | ⟨db, n⟩ <;> rfl

/-! ## Overtaken writes -/

/-- The turn applies the write when the peer is past its timestamp. -/
def Late (x : Traffic) (t : Turn) (e : Entry) : Prop :=
  t = .apply e ∧ e ∉ x.following.log ∧ e ∈ (x.perform t).following.log ∧
    x.following.since < e.timestamp ∧ e.timestamp ≤ x.following.cursor

instance (x : Traffic) (t : Turn) (e : Entry) : Decidable (x.Late t e) :=
  inferInstanceAs (Decidable (t = .apply e ∧ e ∉ x.following.log ∧ e ∈ (x.perform t).following.log ∧
    x.following.since < e.timestamp ∧ e.timestamp ≤ x.following.cursor))

/-- One of the turns applies the write when the peer is past its timestamp. -/
def Overtaken (x : Traffic) : List Turn → Entry → Prop
  | [], _ => False
  | t :: turns, e => x.Late t e ∨ (x.perform t).Overtaken turns e

@[simp] theorem since_perform (x : Traffic) (t : Turn) :
    (x.perform t).following.since = x.following.since := by
  cases t with
  | stamp collection key operation payload now =>
    rw [perform]
    split
    · rfl
    · exact Following.since_perform _ _
  | apply a =>
    rw [perform]
    split
    · exact Following.since_perform _ _
    · rfl
  | pull => exact Following.since_perform _ _

@[simp] theorem since_run (x : Traffic) (turns : List Turn) :
    (x.run turns).following.since = x.following.since := by
  induction turns generalizing x with
  | nil => rfl
  | cons t turns ih => rw [run_cons, ih, since_perform]

/-- Whatever turn it is, the peer has received what it should. -/
theorem sound_perform (h : x.following.Sound) (t : Turn) : (x.perform t).following.Sound := by
  cases t with
  | stamp collection key operation payload now =>
    rw [perform]
    split
    · exact h
    · exact h.perform (.tick now)
  | apply a =>
    rw [perform]
    split
    · exact h.perform (.batch [] [a])
    · exact h
  | pull => exact h.perform .pull

theorem sound_run (h : x.following.Sound) (turns : List Turn) : (x.run turns).following.Sound := by
  induction turns generalizing x with
  | nil => exact h
  | cons t turns ih => exact ih (sound_perform h t)

/-- A pull passes over nothing, and of the writes the peer misses those that are applied late. -/
theorem missed_perform (h : x.following.Sound) (t : Turn) :
    (x.perform t).following.Missed e ↔ x.following.Missed e ∨ x.Late t e := by
  cases t with
  | stamp collection key operation payload now =>
    have hlate : ¬ x.Late (.stamp collection key operation payload now) e := fun hl => nomatch hl.1
    rw [or_iff_left hlate, perform]
    split
    · rfl
    · -- a stamp changes neither the log nor what was received
      rfl
  | pull =>
    have hlate : ¬ x.Late .pull e := fun hl => nomatch hl.1
    rw [or_iff_left hlate]
    show (x.following.perform .pull).Missed e ↔ _
    rw [h.missed_perform .pull, or_iff_left]
    rintro ⟨hnew, he, _⟩
    rw [Following.log_perform_pull] at he
    exact hnew he
  | apply a =>
    by_cases ha : a ∈ x.pending
    · have hlate : x.Late (.apply a) e ↔ x.following.Late (.batch [] [a]) e := by
        rw [Late, perform, if_pos ha, Following.Late]
        constructor
        · rintro ⟨_, hl⟩
          exact hl
        · intro hl
          refine ⟨?_, hl⟩
          rw [(Following.mem_log_perform_batch hl.2.1).resolve_left hl.1]
      rw [hlate, ← h.missed_perform, perform, if_pos ha]
    · have hlate : ¬ x.Late (.apply a) e := by
        rintro ⟨_, hnew, he, _⟩
        rw [perform, if_neg ha] at he
        exact hnew he
      rw [or_iff_left hlate, perform, if_neg ha]

/-- The writes that a peer misses in a run are the overtaken ones. -/
theorem missed_run (h : x.following.Sound) (turns : List Turn) :
    (x.run turns).following.Missed e ↔ x.following.Missed e ∨ x.Overtaken turns e := by
  induction turns generalizing x with
  | nil => exact (or_iff_left id).symm
  | cons t turns ih =>
    rw [run_cons, ih (sound_perform h t), missed_perform h t, Overtaken, or_assoc]

/-! ## Writes that do not overlap -/

/-- No writer has its change stamped while another one has still to apply its own. -/
def Serial (x : Traffic) : List Turn → Prop
  | [] => True
  | t :: turns => (t.begins → x.pending = []) ∧ (x.perform t).Serial turns

instance decidableSerial : (x : Traffic) → (turns : List Turn) → Decidable (x.Serial turns)
  | _, [] => isTrue trivial
  | x, t :: turns =>
    have := decidableSerial (x.perform t) turns
    inferInstanceAs (Decidable ((t.begins → x.pending = []) ∧ (x.perform t).Serial turns))

/-- The clock is not behind the log, at most one write is pending, and it is later than the log. -/
structure Orderly (x : Traffic) : Prop where
  clock : ∀ a ∈ x.following.log, a.timestamp.Within x.following.clock.last
  pending : ∀ e ∈ x.pending, x.pending = [e] ∧ e.timestamp.Within x.following.clock.last ∧
    ∀ a ∈ x.following.log, a.timestamp < e.timestamp

/-- Physical time never goes back. -/
theorem physical_le_perform (x : Traffic) (t : Turn) :
    x.following.clock.last.physical ≤ (x.perform t).following.clock.last.physical := by
  cases t with
  | stamp collection key operation payload now =>
    rw [perform]
    split
    · exact Int64.le_refl _
    · exact Clock.physical_le_next _ _ now
  | apply a =>
    rw [perform]
    split
    · rw [Following.clock_perform_batch]
      exact Int64.le_refl _
    · exact Int64.le_refl _
  | pull =>
    show _ ≤ (x.following.perform .pull).clock.last.physical
    rw [Following.clock_perform_pull]
    exact Int64.le_refl _

theorem physical_le_run (x : Traffic) (turns : List Turn) :
    x.following.clock.last.physical ≤ (x.run turns).following.clock.last.physical := by
  induction turns generalizing x with
  | nil => exact Int64.le_refl _
  | cons t turns ih => exact Int64.le_trans (x.physical_le_perform t) (ih (x.perform t))

/-- Turns of writes that do not overlap keep things orderly, as long as there is time left. -/
theorem Orderly.perform (h : x.Orderly)
    (hserial : t.begins → x.pending = [])
    (htime : (x.perform t).following.clock.last.physical < Int64.maxValue) :
    (x.perform t).Orderly := by
  cases t with
  | stamp collection key operation payload now =>
    have hnone : x.pending = [] := hserial rfl
    rw [Traffic.perform] at htime ⊢
    split at htime
    · rename_i hkey
      rwa [if_pos hkey]
    rename_i hkey
    rw [if_neg hkey]
    refine ⟨fun a ha => (h.clock a ha).trans (Timestamp.within_next _ _ now), ?_⟩
    intro e he
    rw [hnone] at he ⊢
    rw [List.mem_singleton.1 he]
    refine ⟨rfl, Or.inl (Std.le_refl _), ?_⟩
    intro a ha
    exact Database.lt_of_within (h.clock a ha) htime
  | apply a =>
    rw [Traffic.perform]
    split
    · rename_i ha
      obtain ⟨hone, hwithin, _⟩ := h.pending a ha
      refine ⟨?_, ?_⟩
      · intro b hb
        rw [Following.clock_perform_batch]
        rcases Following.mem_log_perform_batch hb with hb | rfl
        · exact h.clock b hb
        · exact hwithin
      · intro e he
        rw [hone, List.erase_cons_head] at he
        cases he
    · exact h
  | pull =>
    refine ⟨?_, ?_⟩
    · show ∀ a ∈ (x.following.perform .pull).log,
        a.timestamp.Within (x.following.perform .pull).clock.last
      rw [Following.log_perform_pull, Following.clock_perform_pull]
      exact h.clock
    · show ∀ e ∈ x.pending, x.pending = [e] ∧
        e.timestamp.Within (x.following.perform .pull).clock.last ∧
        ∀ a ∈ (x.following.perform .pull).log, a.timestamp < e.timestamp
      rw [Following.log_perform_pull, Following.clock_perform_pull]
      exact h.pending

/-- A peer is not past a write that is later than the log. -/
theorem Orderly.not_late (h : x.Orderly) (hsound : x.following.Sound) : ¬ x.Late t e := by
  rintro ⟨rfl, hnew, he, hsince, hle⟩
  have hpending : e ∈ x.pending := by
    rw [← Decidable.not_not (p := e ∈ x.pending)]
    intro hnot
    rw [Traffic.perform, if_neg hnot] at he
    exact hnew he
  -- the peer is where it has begun, or at an entry of the log
  rcases hlast : x.following.received.getLast? with _ | w
  · rw [Following.cursor_eq_since (List.getLast?_eq_none_iff.1 hlast)] at hle
    exact Std.not_lt.2 hle hsince
  · rw [Following.cursor_of_getLast? hlast] at hle
    obtain ⟨a, ha, rfl⟩ := hsound.logged w (List.mem_of_getLast? hlast)
    exact Std.not_lt.2 hle ((h.pending e hpending).2.2 a ha)

/-- Writes that do not overlap are not overtaken, as long as there is time left. -/
theorem Orderly.not_overtaken (h : x.Orderly) (hsound : x.following.Sound) (hserial : x.Serial turns)
    (htime : (x.run turns).following.clock.last.physical < Int64.maxValue) : ¬ x.Overtaken turns e := by
  induction turns generalizing x with
  | nil => exact id
  | cons t turns ih =>
    have hstep : (x.perform t).following.clock.last.physical < Int64.maxValue :=
      Int64.lt_of_le_of_lt ((x.perform t).physical_le_run turns) htime
    rintro (hlate | hlater)
    · exact h.not_late hsound hlate
    · exact ih (h.perform hserial.1 hstep) (sound_perform hsound t) hserial.2 htime hlater

/-! ## What is hidden -/

/-- **What is hidden from a peer.** Any number of writers write to a node, taking turns with a peer that follows it,
until the next page for the peer is empty. Then the entries of the log after the timestamp from which the peer has
begun that the peer has not received are exactly the writes that were applied when the peer was past them. If the node
is sound at the beginning, no two writes overlap and physical time has not run out, then there are none. -/
theorem hidden_iff_overtaken (r : Responder) (since : Timestamp) (turns : List Turn)
    (h : ((start r since).run turns).following.CaughtUp) :
    let x := ((start r since).run turns).following
    (∀ e, (e ∈ x.log ∧ since < e.timestamp ∧ WireEntry.ofEntry e ∉ x.received) ↔
      (start r since).Overtaken turns e) ∧
    (∀ resolver, r.database.Sound resolver → (start r since).Serial turns →
      x.clock.last.physical < Int64.maxValue →
      ∀ e ∈ x.log, since < e.timestamp → WireEntry.ofEntry e ∈ x.received) := by
  intro x
  have hstart : (start r since).following.Sound := Following.sound_start r since
  have hsince : x.since = since := since_run (start r since) turns
  have hhidden : ∀ e, (e ∈ x.log ∧ since < e.timestamp ∧ WireEntry.ofEntry e ∉ x.received) ↔
      (start r since).Overtaken turns e := by
    intro e
    have hnone : ¬ (start r since).following.Missed e := Following.not_missed_start r since
    have hmissed : x.Missed e ↔ (start r since).following.Missed e ∨ (start r since).Overtaken turns e :=
      missed_run hstart turns
    rw [or_iff_right hnone] at hmissed
    rw [← hmissed, Following.Missed, hsince]
    constructor
    · rintro ⟨he, hlt, hnot⟩
      exact ⟨he, hlt, h.le_cursor he, hnot⟩
    · rintro ⟨he, hlt, _, hnot⟩
      exact ⟨he, hlt, hnot⟩
  refine ⟨hhidden, ?_⟩
  intro resolver hsound hserial htime e he hlt
  have horderly : (start r since).Orderly := ⟨hsound.clock, List.forall_mem_nil _⟩
  by_cases hreceived : WireEntry.ofEntry e ∈ x.received
  · exact hreceived
  · exact absurd ((hhidden e).1 ⟨he, hlt, hreceived⟩) (horderly.not_overtaken hstart hserial htime)

/-- The turns of two writers, of which the second overtakes the first, and of two that write one after the other. -/
theorem hidden_iff_overtaken_two :
    let r : Responder := { database := ⟨{}, ⟨"a", ⟨10, 0, "a"⟩⟩⟩, token := "" }
    let x : Entry := .put "notes" "x" (.ofInt 1) ⟨100, 0, "a"⟩
    let y : Entry := .delete "notes" "y" ⟨100, 1, "a"⟩
    let stampX : Turn := .stamp "notes" "x" .put (some (.ofInt 1)) 100
    let stampY : Turn := .stamp "notes" "y" .delete none 50
    (start r .zero).Overtaken [stampX, stampY, .apply y, .pull, .apply x] x ∧
      ∀ e ∈ [x, y], WireEntry.ofEntry e ∈
        ((start r .zero).run [stampX, .apply x, .pull, stampY, .apply y, .pull]).following.received := by
  intro r x y stampX stampY
  have hoverlap : ((start r .zero).run [stampX, stampY, .apply y, .pull, .apply x]).following.CaughtUp := by
    rw [Following.caughtUp_iff]
    decide +kernel
  have hserial : ((start r .zero).run
      [stampX, .apply x, .pull, stampY, .apply y, .pull]).following.CaughtUp := by
    rw [Following.caughtUp_iff]
    decide +kernel
  constructor
  · exact ((hidden_iff_overtaken r .zero _ hoverlap).1 x).1 (by decide +kernel)
  · have hopen : Database.open "a" {} 10 = .ok r.database := rfl
    have hsound : r.database.Sound .lastWriteWins := Database.sound_open .empty (by decide) hopen
    have hreceived := (hidden_iff_overtaken r .zero _ hserial).2 .lastWriteWins hsound
      (by decide +kernel) (by decide +kernel)
    intro e he
    have hlog : e ∈ ((start r .zero).run
        [stampX, .apply x, .pull, stampY, .apply y, .pull]).following.log ∧ .zero < e.timestamp := by
      revert e
      decide +kernel
    exact hreceived e hlog.1 hlog.2

/-- **A hidden write.** Two writers write to a new node. The first one is stamped first, but the second one is applied
first, and the peer pulls in between. When both writes have returned the peer has caught up, and has not received
the first one, which is in the log. -/
theorem write_hidden :
    let a : Database := ⟨{}, ⟨"a", ⟨10, 0, "a"⟩⟩⟩
    let x : Entry := .put "notes" "x" (.ofInt 1) ⟨100, 0, "a"⟩
    let y : Entry := .put "notes" "y" (.ofInt 2) ⟨100, 1, "a"⟩
    let z := (start { database := a, token := "" } .zero).run
      [.stamp "notes" "x" .put (some (.ofInt 1)) 100, .stamp "notes" "y" .put (some (.ofInt 2)) 100,
        .apply y, .pull, .apply x]
    Database.open "a" {} 10 = .ok a ∧ z.pending = [] ∧ z.following.CaughtUp ∧
      x ∈ z.following.log ∧ WireEntry.ofEntry x ∉ z.following.received := by
  intro a x y z
  rw [Following.caughtUp_iff]
  exact ⟨rfl, by decide +kernel⟩

end Traffic

end DocMesh
