/-
# What a node reports and counts of its cycles

For a cycle a node chooses some of the peers that it knows. It meets them all at once, and the encounters end in any
order, each in its own way; the cycle is reported when all of them have ended. Other cycles may be under way at the
same time, and single peers may be met in between. A ledger is a node with everything that is under way and all that
was reported, and its statistics are what one counts in the reports.

Main statements:

* `Cycle.perm_peers` : each encounter is reported once;
* `Statistics.total_concat` : how what one counts in the reports grows;
* `Round.Sound.finish` : what an encounter that ends does to its cycle;
* `Ledger.Sound.perform`, `Ledger.sound_run` : what a ledger keeps, in one event and in a run;
* `Ledger.exists_run_record` : any choice, any outcomes and any order of them are possible;
* `Ledger.exists_run_cycle`, `Ledger.exists_run_syncWith` : meeting one peer after the other is a run;
* `Ledger.accounted` : what is reported, and what the statistics say.
-/
import DocMesh.Proofs.Sync.Gossip
import Mathlib.Algebra.GroupWithZero.Nat
import Mathlib.Data.List.Induction

namespace DocMesh

/-! ## Encounters that are reported -/

namespace Cycle

theorem synced_append (es fs : List Encounter) : synced ⟨es ++ fs⟩ = synced ⟨es⟩ ++ synced ⟨fs⟩ := List.filterMap_append

theorem failures_append (es fs : List Encounter) : failures ⟨es ++ fs⟩ = failures ⟨es⟩ ++ failures ⟨fs⟩ :=
  List.filterMap_append

/-- **Each encounter is reported once**, as a success or as a failure. -/
theorem perm_peers (c : Cycle) :
    (c.synced.map (·.1) ++ c.failures.map (·.1)).Perm (c.encounters.map (·.peer)) := by
  obtain ⟨es⟩ := c
  induction es with
  | nil => exact .nil
  | cons e es ih =>
    obtain ⟨peer, cause | t⟩ := e
    · exact List.perm_middle.trans (ih.cons peer)
    · exact ih.cons peer

end Cycle

/-- What a node reports: a cycle, with the peers that were known and those that were chosen, or that a single peer was
met. -/
inductive Outcome where
  | cycle (known chosen : List Peer) (result : Cycle)
  | meeting (e : Encounter)

namespace Outcome

/-- The encounters that are reported. -/
def encounters : Outcome → List Encounter
  | cycle _ _ result => result.encounters
  | meeting e => [e]

/-- Is this a cycle in which a peer was met? -/
def completes : Outcome → Bool
  | cycle _ _ result => result.selected != 0
  | meeting _ => false

/-- Is this a cycle in which there was no peer to meet? -/
def skips : Outcome → Bool
  | cycle _ _ result => result.selected == 0
  | meeting _ => false

/-- The peers of a cycle are chosen as a node with this configuration can choose them, and each of them is met once. -/
def Sound (c : NodeConfig) : Outcome → Prop
  | cycle known chosen result =>
    c.MayChoose known chosen ∧ (result.encounters.map (·.peer)).Perm (chosen.map (·.id))
  | meeting _ => True

end Outcome

namespace Statistics

/-- What one counts in some reports: the cycles, the encounters of all reports and the entries that they moved, and why
the last one failed that did. -/
def total (reports : List Outcome) : Statistics :=
  let all : Cycle := ⟨reports.flatMap Outcome.encounters⟩
  { completed := reports.countP Outcome.completes
    skipped := reports.countP Outcome.skips
    synced := all.synced.length
    failures := all.failures.length
    moved := ⟨(all.synced.map (·.2.pulled)).sum, (all.synced.map (·.2.pushed)).sum⟩
    lastError := all.failures.getLast?.map (·.2.message) }

/-- **What is counted of some encounters**, one after the other. -/
theorem foldl_count (s : Statistics) (es : List Encounter) :
    es.foldl count s =
      { s with
        synced := s.synced + (Cycle.synced ⟨es⟩).length
        failures := s.failures + (Cycle.failures ⟨es⟩).length
        moved := ⟨s.moved.pulled + ((Cycle.synced ⟨es⟩).map (·.2.pulled)).sum,
          s.moved.pushed + ((Cycle.synced ⟨es⟩).map (·.2.pushed)).sum⟩
        lastError := ((Cycle.failures ⟨es⟩).getLast?.map (·.2.message)).or s.lastError } := by
  -- from the end, since it is the last failure that is kept
  induction es using List.reverseRecOn with
  | nil => rfl
  | append_singleton es e ih =>
    obtain ⟨peer, cause | t⟩ := e
    · have hsynced : Cycle.synced ⟨es ++ [⟨peer, .error cause⟩]⟩ = Cycle.synced ⟨es⟩ :=
        (Cycle.synced_append es _).trans (List.append_nil _)
      have hfailures : Cycle.failures ⟨es ++ [⟨peer, .error cause⟩]⟩ = Cycle.failures ⟨es⟩ ++ [(peer, cause)] :=
        Cycle.failures_append es _
      rw [List.foldl_append, ih, hsynced, hfailures, List.length_append, List.getLast?_append]
      rfl
    · have hsynced : Cycle.synced ⟨es ++ [⟨peer, .ok t⟩]⟩ = Cycle.synced ⟨es⟩ ++ [(peer, t)] :=
        Cycle.synced_append es _
      have hfailures : Cycle.failures ⟨es ++ [⟨peer, .ok t⟩]⟩ = Cycle.failures ⟨es⟩ :=
        (Cycle.failures_append es _).trans (List.append_nil _)
      rw [List.foldl_append, ih, hsynced, hfailures]
      simp [count, Nat.add_assoc]

/-- What is counted of the encounters of some reports is what one counts in them, but for the cycles. -/
theorem total_eq (reports : List Outcome) :
    total reports =
      { (reports.flatMap Outcome.encounters).foldl count {} with
        completed := reports.countP Outcome.completes, skipped := reports.countP Outcome.skips } := by
  rw [foldl_count, total]
  simp

/-- Whether the cycles are counted before the encounters or after them makes no difference. -/
theorem foldl_count_with (s : Statistics) (completed skipped : Nat) (es : List Encounter) :
    es.foldl count { s with completed := completed, skipped := skipped } =
      { es.foldl count s with completed := completed, skipped := skipped } := by
  induction es generalizing s with
  | nil => rfl
  | cons e es ih =>
    have hrest := ih (s.count e)
    obtain ⟨peer, cause | t⟩ := e <;> exact hrest

/-- Counts what is reported. -/
def add (s : Statistics) : Outcome → Statistics
  | .cycle _ _ result => s.countCycle result
  | .meeting e => s.count e

/-- **What is counted of one more report** is what one counts in all of them. -/
theorem total_concat (reports : List Outcome) (r : Outcome) : total (reports ++ [r]) = (total reports).add r := by
  rw [total_eq, total_eq, List.flatMap_append, List.flatMap_singleton, List.foldl_append, List.countP_append,
    List.countP_append]
  cases r with
  | meeting e => obtain ⟨peer, cause | t⟩ := e <;> rfl
  | cycle known chosen result =>
    obtain ⟨es⟩ := result
    cases es with
    | nil => rfl
    | cons e es =>
      have hcount := foldl_count_with ((reports.flatMap Outcome.encounters).foldl count {})
        (reports.countP Outcome.completes) (reports.countP Outcome.skips) (e :: es)
      rw [add, countCycle, if_neg (by simp), hcount]
      rfl

end Statistics

/-! ## What is under way -/

/-- A cycle that is under way: the peers that were known, those that were chosen, those that are still being met, and
the encounters that have ended. -/
structure Round where
  known : List Peer
  chosen : List Peer
  waiting : List Peer
  ended : List Encounter := []

namespace Round

/-- The encounter with the waiting peer of the number `j` ends. -/
def finish (r : Round) (j : Nat) (result : Except NetworkError Transfer) : Round :=
  match r.waiting[j]? with
  | some p => { r with waiting := r.waiting.eraseIdx j, ended := r.ended ++ [⟨p.id, result⟩] }
  | none => r

/-- The peers are chosen as a node with this configuration can choose them, and each of them was met or is waited
for. -/
structure Sound (c : NodeConfig) (r : Round) : Prop where
  chosen : c.MayChoose r.known r.chosen
  peers : (r.ended.map (·.peer) ++ r.waiting.map (·.id)).Perm (r.chosen.map (·.id))

/-- **An encounter that ends**, in whatever way, leaves a cycle sound: the peer was waited for, and now it was met. -/
theorem Sound.finish {c : NodeConfig} {r : Round} (h : r.Sound c) (j : Nat) (result : Except NetworkError Transfer) :
    (r.finish j result).Sound c := by
  rw [Round.finish]
  split
  · rename_i p hp
    obtain ⟨hj, rfl⟩ := List.getElem?_eq_some_iff.1 hp
    refine ⟨h.chosen, ?_⟩
    have hwaiting := (List.getElem_cons_eraseIdx_perm hj).map (·.id)
    rw [List.map_append, List.append_assoc]
    exact (hwaiting.append_left _).trans h.peers
  · exact h

end Round

/-- A node, the cycles that are under way, the last one first, and what was reported. -/
structure Ledger where
  gossip : Gossip
  rounds : List Round := []
  reports : List Outcome := []

namespace Ledger

/-- What happens next. -/
inductive Event where
  /-- A cycle begins. The numbers of `draw` say who is chosen of the `known` peers. -/
  | start (draw : Nat → Nat) (known : List Peer)
  /-- In the cycle with the number `i` the encounter with the waiting peer of the number `j` ends. -/
  | finish (i j : Nat) (result : Except NetworkError Transfer)
  /-- The cycle with this number is reported, if it waits for nobody. -/
  | report (i : Nat)
  /-- The cycle with this number is given up. -/
  | abandon (i : Nat)
  /-- A single peer was met. -/
  | meet (e : Encounter)
  /-- The database has changed, in an encounter or otherwise. -/
  | store (db : Database)

/-- A report is made, and counted. -/
def record (x : Ledger) (r : Outcome) : Ledger :=
  { x with gossip.statistics := x.gossip.statistics.add r, reports := x.reports ++ [r] }

/-- What an event does. -/
def perform (x : Ledger) : Event → Ledger
  | .start draw known =>
    let chosen := x.gossip.choice draw known
    { x with rounds := ⟨known, chosen, chosen, []⟩ :: x.rounds }
  | .finish i j result => { x with rounds := x.rounds.modify i (·.finish j result) }
  | .report i =>
    match x.rounds[i]? with
    | some ⟨known, chosen, [], ended⟩ =>
      { x.record (.cycle known chosen ⟨ended⟩) with rounds := x.rounds.eraseIdx i }
    | _ => x
  | .abandon i => { x with rounds := x.rounds.eraseIdx i }
  | .meet e => x.record (.meeting e)
  | .store db => { x with gossip.database := db }

/-- What the events do one after the other. -/
def run (x : Ledger) (events : List Event) : Ledger := events.foldl perform x

/-- A node that has not met anybody. -/
def new (c : NodeConfig) (db : Database) : Ledger := { gossip := { config := c, database := db } }

variable {σ : Type} {c : NodeConfig} {x : Ledger}

theorem run_append (x : Ledger) (events events' : List Event) : x.run (events ++ events') = (x.run events).run events' :=
  List.foldl_append

/-! ### What a ledger keeps -/

/-- The cycles under way and the reports are sound, and the statistics are what one counts in the reports. -/
structure Sound (c : NodeConfig) (x : Ledger) : Prop where
  config : x.gossip.config = c
  rounds : ∀ r ∈ x.rounds, r.Sound c
  reports : ∀ r ∈ x.reports, r.Sound c
  statistics : x.gossip.statistics = .total x.reports

theorem sound_new (c : NodeConfig) (db : Database) : (new c db).Sound c :=
  ⟨rfl, List.forall_mem_nil _, List.forall_mem_nil _, rfl⟩

theorem Sound.record {r : Outcome} (h : x.Sound c) (hr : r.Sound c) : (x.record r).Sound c where
  config := h.config
  rounds := h.rounds
  reports := List.forall_mem_append.2 ⟨h.reports, List.forall_mem_singleton.2 hr⟩
  statistics := by rw [Ledger.record, Statistics.total_concat, ← h.statistics]

theorem Sound.eraseIdx (h : x.Sound c) (i : Nat) : Sound c { x with rounds := x.rounds.eraseIdx i } :=
  { h with rounds := fun r hr => h.rounds r (List.mem_of_mem_eraseIdx hr) }

/-- **What one event preserves.** -/
theorem Sound.perform (h : x.Sound c) (v : Event) : (x.perform v).Sound c := by
  cases v with
  | start draw known =>
    have hchosen : c.MayChoose known (x.gossip.choice draw known) := h.config ▸ x.gossip.mayChoose_choice draw known
    exact { h with rounds := List.forall_mem_cons.2 ⟨⟨hchosen, .refl _⟩, h.rounds⟩ }
  | finish i j result =>
    -- the cycle with this number is still sound, and the others are the same as before
    refine { h with rounds := fun r hr => ?_ }
    obtain ⟨k, hk⟩ := List.mem_iff_getElem?.1 hr
    rw [Ledger.perform, List.getElem?_modify, Option.map_eq_map, Option.map_eq_some_iff] at hk
    obtain ⟨r, hk, rfl⟩ := hk
    have hr : r.Sound c := h.rounds r (List.mem_of_getElem? hk)
    split
    · exact hr.finish j result
    · exact hr
  | report i =>
    rw [Ledger.perform]
    split
    · rename_i known chosen ended hi
      have hround := h.rounds _ (List.mem_of_getElem? hi)
      -- nobody is waited for, so that all who were chosen were met
      have hpeers : (ended.map (·.peer)).Perm (chosen.map (·.id)) := by simpa using hround.peers
      have hreport : (Outcome.cycle known chosen ⟨ended⟩).Sound c := ⟨hround.chosen, hpeers⟩
      exact (h.record hreport).eraseIdx i
    · exact h
  | abandon i => exact h.eraseIdx i
  | meet e => exact h.record trivial
  | store db => exact { h with }

/-- **What a run preserves.** -/
theorem sound_run (c : NodeConfig) (db : Database) (events : List Event) : ((new c db).run events).Sound c := by
  induction events using List.reverseRecOn with
  | nil => exact sound_new c db
  | append_singleton events v ih =>
    rw [run_append]
    exact ih.perform v

/-! ### What can be reported -/

/-- The peers that a cycle waits for can be met in any order and with any outcomes. -/
theorem exists_run_finish (x : Ledger) (known chosen waiting : List Peer) (ended encounters : List Encounter)
    (h : (encounters.map (·.peer)).Perm (waiting.map (·.id))) :
    ∃ events, ({ x with rounds := ⟨known, chosen, waiting, ended⟩ :: x.rounds } : Ledger).run events =
      { x with rounds := ⟨known, chosen, [], ended ++ encounters⟩ :: x.rounds } := by
  induction encounters generalizing waiting ended with
  | nil =>
    have hwaiting : waiting = [] := List.map_eq_nil_iff.1 h.nil_eq.symm
    exact ⟨[], by rw [hwaiting, List.append_nil]; rfl⟩
  | cons e encounters ih =>
    -- the first encounter is with one of those that are waited for, and the others wait on
    obtain ⟨p, hp, heq⟩ := List.mem_map.1 (h.subset List.mem_cons_self)
    obtain ⟨j, hj, rfl⟩ := List.getElem_of_mem hp
    have hrest : (encounters.map (·.peer)).Perm ((waiting.eraseIdx j).map (·.id)) := by
      have hwaiting := (List.getElem_cons_eraseIdx_perm hj).map (·.id)
      rw [List.map_cons, heq] at hwaiting
      exact (h.trans hwaiting.symm).cons_inv
    obtain ⟨events, hevents⟩ := ih _ (ended ++ [e]) hrest
    refine ⟨.finish 0 j e.result :: events, ?_⟩
    have hfinish : Round.finish ⟨known, chosen, waiting, ended⟩ j e.result
        = ⟨known, chosen, waiting.eraseIdx j, ended ++ [e]⟩ := by
      rw [Round.finish]
      dsimp only
      rw [List.getElem?_eq_getElem hj]
      dsimp only
      rw [heq]
    rw [List.append_assoc, List.singleton_append] at hevents
    rw [← hevents, ← hfinish]
    rfl

/-- **Any sound report can be made**: whoever can be chosen, whatever comes of the encounters and in whatever order they
end. -/
theorem exists_run_record (x : Ledger) (r : Outcome) (h : r.Sound x.gossip.config) :
    ∃ events, x.run events = x.record r := by
  cases r with
  | meeting e => exact ⟨[.meet e], rfl⟩
  | cycle known chosen result =>
    obtain ⟨hchosen, hpeers⟩ := h
    obtain ⟨draw, rfl⟩ := Gossip.mayChoose_iff.1 hchosen
    obtain ⟨events, hevents⟩ := x.exists_run_finish known _ _ [] result.encounters hpeers
    refine ⟨.start draw known :: events ++ [.report 0], ?_⟩
    rw [run_append]
    exact congrArg (perform · (.report 0)) hevents

/-- A cycle in which one peer is met after the other is a run. -/
theorem exists_run_cycle (x : Ledger) (net : Network σ) (draw : Nat → Nat) (known : List Peer) :
    ∃ events, x.run events =
      { x.record (.cycle known (x.gossip.choice draw known) (x.gossip.cycle net draw known).1) with
        gossip := (x.gossip.cycle net draw known).2 } := by
  have hsound : (Outcome.cycle known (x.gossip.choice draw known) (x.gossip.cycle net draw known).1).Sound
      x.gossip.config :=
    ⟨x.gossip.mayChoose_choice draw known, .of_eq (Gossip.peers_meetAll net _ _)⟩
  obtain ⟨events, hevents⟩ := x.exists_run_record _ hsound
  refine ⟨events ++ [.store (x.gossip.cycle net draw known).2.database], ?_⟩
  rw [run_append, hevents, Gossip.cycle_snd]
  rfl

/-- To meet a single peer is a run. -/
theorem exists_run_syncWith (x : Ledger) (net : Network σ) (p : Peer) :
    ∃ events, x.run events =
      { x.record (.meeting (x.gossip.syncWith net p).1) with gossip := (x.gossip.syncWith net p).2 } := by
  refine ⟨[.meet (x.gossip.syncWith net p).1, .store (x.gossip.syncWith net p).2.database], ?_⟩
  rw [Gossip.syncWith_snd]
  rfl

/-- **What is reported, and what the statistics say.** Cycles of a node are under way, any number of them at a time, and
single peers are met in between. A cycle that is reported has selected as many peers as the node asks for, or all others
that are known if there are not that many; the node itself is not one of them, and of peers with different ids none is
chosen twice; each of them is reported once, as a success or as a failure. The statistics are what one counts in the
reports. Whoever can be chosen, whatever comes of the encounters and in whatever order they end, this can be reported
next. A cycle in which the peers are met one after the other is such a run, and to meet a single peer is one. -/
theorem accounted (c : NodeConfig) (db : Database) (events : List Event) :
    let x := (new c db).run events
    (∀ known chosen result, .cycle known chosen result ∈ x.reports →
      let others := known.filter (·.id != c.node)
      result.selected = min (max c.gossip.fanOut 1) others.length ∧
      (c.validate = .ok () → result.selected = min c.gossip.fanOut others.length) ∧
      chosen.Subperm known ∧ (∀ p ∈ chosen, p.id ≠ c.node) ∧
      ((known.map (·.id)).Nodup → (chosen.map (·.id)).Nodup) ∧
      (result.synced.map (·.1) ++ result.failures.map (·.1)).Perm (chosen.map (·.id))) ∧
    x.gossip.statistics = .total x.reports ∧
    (∀ known chosen encounters, c.MayChoose known chosen → (encounters.map (·.peer)).Perm (chosen.map (·.id)) →
      ∃ next, x.run next = x.record (.cycle known chosen ⟨encounters⟩)) ∧
    (∀ (σ : Type) (net : Network σ) draw known, let (result, g) := x.gossip.cycle net draw known
      ∃ next, x.run next = { x.record (.cycle known (x.gossip.choice draw known) result) with gossip := g }) ∧
    (∀ (σ : Type) (net : Network σ) p, let (e, g) := x.gossip.syncWith net p
      ∃ next, x.run next = { x.record (.meeting e) with gossip := g }) := by
  intro x
  have hx : x.Sound c := sound_run c db events
  refine ⟨?_, hx.statistics, ?_, fun σ net draw known => x.exists_run_cycle net draw known,
    fun σ net p => x.exists_run_syncWith net p⟩
  · intro known chosen result hreport others
    obtain ⟨hchosen, hpeers⟩ := hx.reports _ hreport
    have hselected : result.selected = min (max c.gossip.fanOut 1) others.length := by
      have hlength := hpeers.length_eq
      rw [List.length_map, List.length_map] at hlength
      exact hlength.trans hchosen.length_eq
    refine ⟨hselected, ?_, hchosen.subperm, hchosen.others, hchosen.nodup, result.perm_peers.trans hpeers⟩
    intro hvalid
    have hfanOut := NodeConfig.fanOut_ne_zero_of_validate hvalid
    rw [hselected, Nat.max_eq_left (Nat.one_le_iff_ne_zero.2 hfanOut)]
  · intro known chosen encounters hchosen hpeers
    have hreport : (Outcome.cycle known chosen ⟨encounters⟩).Sound x.gossip.config := by
      rw [hx.config]
      exact ⟨hchosen, hpeers⟩
    exact x.exists_run_record _ hreport

/-- Two of three peers are chosen, the second one fails before the first one has ended, and another peer is met in
between. Then there is a cycle without peers. -/
theorem accounted_two_cycles :
    let c : NodeConfig := { node := "a", token := "secret", gossip.fanOut := 2 }
    let peer : String → Peer := fun id => ⟨id, "127.0.0.1:1", 0, .static⟩
    let known := [peer "a", peer "b", peer "c", peer "d"]
    let chosen := [peer "c", peer "d"]
    let result : Cycle := ⟨[⟨"d", .error .closed⟩, ⟨"c", .ok ⟨3, 4⟩⟩]⟩
    let e : Encounter := ⟨"e", .ok ⟨1, 2⟩⟩
    let events : List Event :=
      [.start (fun _ => 1) known, .finish 0 1 (.error .closed), .meet e, .finish 0 0 (.ok ⟨3, 4⟩), .report 0,
        .start id [peer "a"], .report 0]
    let x := (new c default).run events
    x.reports = [.meeting e, .cycle known chosen result, .cycle [peer "a"] [] ⟨[]⟩] ∧
      c.validate = .ok () ∧ result.selected = min c.gossip.fanOut 3 ∧
      (known.map (·.id)).Nodup ∧ (chosen.map (·.id)).Nodup ∧
      x.gossip.statistics =
        { completed := 1, skipped := 1, synced := 2, failures := 1, moved := ⟨4, 6⟩
          lastError := some "connection closed" } := by
  intro c peer known chosen result e events x
  have hreports : x.reports = [.meeting e, .cycle known chosen result, .cycle [peer "a"] [] ⟨[]⟩] := rfl
  have hvalid : c.validate = .ok () := by decide +kernel
  have hknown : (known.map (·.id)).Nodup := by decide
  obtain ⟨hcycles, hstatistics, -⟩ := accounted c default events
  have hreport : .cycle known chosen result ∈ x.reports := by
    rw [hreports]
    exact List.mem_cons_of_mem _ List.mem_cons_self
  obtain ⟨-, hselected, -, -, hnodup, -⟩ := hcycles known chosen result hreport
  refine ⟨hreports, hvalid, hselected hvalid, hknown, hnodup hknown, ?_⟩
  change x.gossip.statistics = .total x.reports at hstatistics
  rw [hstatistics, hreports]
  rfl

end Ledger

end DocMesh
