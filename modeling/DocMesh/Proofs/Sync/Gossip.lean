/-
# Whom a node meets in a cycle

For a cycle a node chooses some of the peers that it knows, as many as its configuration asks for, or all if there are
not that many; it does not choose itself. It meets them one after the other. What comes of this is one encounter with
each of them, and a database that may have changed; nothing else of the node is touched but what it counts.

Main statements:

* `NodeConfig.validate_eq_ok_iff` : the configurations that are accepted;
* `choose_subperm`, `length_choose`, `exists_choose_eq` : who can be drawn from a list;
* `Gossip.mayChoose_iff` : the peers that a node can choose;
* `Gossip.peers_meetAll` : each of the peers is met once;
* `Gossip.syncWith_snd`, `Gossip.cycle_snd` : what an encounter and a cycle change.
-/
import DocMesh.Sync.Gossip
import Mathlib.Data.List.Perm.Subperm

namespace DocMesh

/-! ## Configurations that are accepted -/

namespace NodeConfig

variable {c : NodeConfig}

/-- **The configurations that are accepted**: whatever is asked for holds, and nothing is wrong with the discovery
service or with any static peer. -/
theorem validate_eq_ok_iff :
    c.validate = .ok () ↔
      (∀ d ∈ c.demands, d.1 = true) ∧ c.discovery.fault? = none ∧ c.electionInterval ≠ 0 ∧
        ∀ p ∈ c.staticPeers, peerFault? p = none := by
  have hdemands : (c.demands.find? fun d => !d.1) = none ↔ ∀ d ∈ c.demands, d.1 = true := by simp
  rw [validate, fault?, ← hdemands, ← List.findSome?_eq_none_iff]
  cases c.demands.find? fun d => !d.1 with
  | some fault => simp
  | none =>
    cases c.discovery.fault? with
    | some detail => simp
    | none =>
      by_cases hinterval : c.electionInterval = 0
      · simp [hinterval]
      · cases c.staticPeers.findSome? peerFault? <;> simp [hinterval]

/-- A configuration that is accepted lets a node choose at least one peer. -/
theorem fanOut_ne_zero_of_validate (h : c.validate = .ok ()) : c.gossip.fanOut ≠ 0 := by
  have hmem : (c.gossip.fanOut != 0, "sync fan-out must be at least 1") ∈ c.demands := by simp [demands]
  simpa using (validate_eq_ok_iff.1 h).1 _ hmem

end NodeConfig

/-! ## Choosing peers -/

namespace Gossip

variable {draw : Nat → Nat} {n : Nat} {ps chosen : List Peer}

theorem length_choose (draw : Nat → Nat) (n : Nat) (ps : List Peer) : (choose draw n ps).length = min n ps.length := by
  induction n generalizing ps with
  | zero => simp [choose]
  | succ n ih =>
    cases ps with
    | nil => simp [choose]
    | cons p ps =>
      have hi : draw n % (p :: ps).length < (p :: ps).length := Nat.mod_lt _ (Nat.succ_pos _)
      rw [choose, List.length_cons, ih, List.length_eraseIdx_of_lt hi, List.length_cons]
      omega

/-- No peer is chosen more often than it is listed. -/
theorem choose_subperm (draw : Nat → Nat) (n : Nat) (ps : List Peer) : (choose draw n ps).Subperm ps := by
  induction n generalizing ps with
  | zero => exact List.nil_subperm
  | succ n ih =>
    cases ps with
    | nil => exact List.nil_subperm
    | cons p ps =>
      have hi : draw n % (p :: ps).length < (p :: ps).length := Nat.mod_lt _ (Nat.succ_pos _)
      rw [choose, ← List.getElem_eq_getD p (h := hi)]
      exact ((List.subperm_cons _).2 (ih _)).trans (List.getElem_cons_eraseIdx_perm hi).subperm

/-- Of the numbers that are drawn only the first ones count, as many as peers are chosen. -/
theorem choose_congr {draw' : Nat → Nat} (h : ∀ m < n, draw m = draw' m) (ps : List Peer) :
    choose draw n ps = choose draw' n ps := by
  induction n generalizing ps with
  | zero => rfl
  | succ n ih =>
    cases ps with
    | nil => rfl
    | cons p ps =>
      rw [choose, choose, h n (Nat.lt_succ_self n), ih fun m hm => h m (Nat.lt_succ_of_lt hm)]

/-- **Any choice can be drawn**: any peers that are listed, in any order, if they are as many as are to be chosen. -/
theorem exists_choose_eq (hchosen : chosen.Subperm ps) (hlength : chosen.length = min n ps.length) :
    ∃ draw, choose draw n ps = chosen := by
  induction n generalizing ps chosen with
  | zero => exact ⟨id, (List.length_eq_zero_iff.1 (hlength.trans (Nat.zero_min _))).symm⟩
  | succ n ih =>
    cases chosen with
    | nil =>
      have hps : ps = [] := List.length_eq_zero_iff.1 (by rw [List.length_nil] at hlength; omega)
      exact ⟨id, by rw [hps, choose]⟩
    | cons c chosen =>
      -- the first number that is drawn is the place of the first peer, and the rest is drawn from what is left
      obtain ⟨i, hi, hc⟩ := List.getElem_of_mem (hchosen.subset List.mem_cons_self)
      have hrest : chosen.Subperm (ps.eraseIdx i) := by
        rw [← List.subperm_cons c]
        exact hchosen.trans (hc ▸ (List.getElem_cons_eraseIdx_perm hi).symm.subperm)
      have hlength' : chosen.length = min n (ps.eraseIdx i).length := by
        rw [List.length_eraseIdx_of_lt hi]
        rw [List.length_cons] at hlength
        omega
      obtain ⟨draw, hdraw⟩ := ih hrest hlength'
      refine ⟨fun m => if m = n then i else draw m, ?_⟩
      cases ps with
      | nil => exact absurd hi (Nat.not_lt_zero i)
      | cons p ps =>
        have hfirst : ∀ m < n, (if m = n then i else draw m) = draw m := fun m hm => if_neg (Nat.ne_of_lt hm)
        rw [choose, if_pos rfl, Nat.mod_eq_of_lt hi, ← List.getElem_eq_getD p (h := hi), hc, choose_congr hfirst, hdraw]

/-- The peers that are chosen for a cycle. -/
def choice (g : Gossip) (draw : Nat → Nat) (known : List Peer) : List Peer :=
  choose draw (max g.config.gossip.fanOut 1) (g.candidates known)

end Gossip

/-- A node with this configuration can choose these peers of those that are known. -/
structure NodeConfig.MayChoose (c : NodeConfig) (known chosen : List Peer) : Prop where
  length_eq : chosen.length = min (max c.gossip.fanOut 1) (known.filter (·.id != c.node)).length
  subperm : chosen.Subperm known
  others : ∀ p ∈ chosen, p.id ≠ c.node

/-- Of peers with different ids none is chosen twice. -/
theorem NodeConfig.MayChoose.nodup {c : NodeConfig} {known chosen : List Peer} (h : c.MayChoose known chosen)
    (hknown : (known.map (·.id)).Nodup) : (chosen.map (·.id)).Nodup := by
  obtain ⟨listed, hperm, hsublist⟩ := h.subperm
  exact (hperm.map _).nodup_iff.1 (hknown.sublist (hsublist.map _))

namespace Gossip

variable {σ : Type} {known chosen : List Peer} {g : Gossip}

theorem mayChoose_choice (g : Gossip) (draw : Nat → Nat) (known : List Peer) :
    g.config.MayChoose known (g.choice draw known) where
  length_eq := length_choose _ _ _
  subperm := (choose_subperm _ _ _).trans List.filter_sublist.subperm
  others p hp := by
    have hmem : p ∈ g.candidates known := (choose_subperm _ _ _).subset hp
    simpa using (List.mem_filter.1 hmem).2

/-- **The peers that can be drawn** are exactly those that the node can choose. -/
theorem mayChoose_iff : g.config.MayChoose known chosen ↔ ∃ draw, g.choice draw known = chosen := by
  constructor
  · rintro ⟨hlength, hsubperm, hothers⟩
    have hall : chosen.filter (·.id != g.config.node) = chosen :=
      List.filter_eq_self.2 fun p hp => bne_iff_ne.2 (hothers p hp)
    have hcandidates : chosen.Subperm (g.candidates known) := hall ▸ hsubperm.filter (·.id != g.config.node)
    exact exists_choose_eq hcandidates hlength
  · rintro ⟨draw, rfl⟩
    exact g.mayChoose_choice draw known

/-! ## Meeting peers -/

theorem peer_meet (net : Network σ) (g : Gossip) (p : Peer) : (meet net g p).1.peer = p.id := by
  unfold meet
  split <;> rfl

/-- To meet a peer changes nothing but the database. -/
theorem meet_snd (net : Network σ) (g : Gossip) (p : Peer) :
    (meet net g p).2 = { g with database := (meet net g p).2.database } := by
  unfold meet
  split <;> rfl

/-- Each of the peers is met once. -/
theorem peers_meetAll (net : Network σ) (g : Gossip) (ps : List Peer) :
    (meetAll net g ps).1.map (·.peer) = ps.map (·.id) := by
  induction ps generalizing g with
  | nil => rfl
  | cons p ps ih =>
    rw [meetAll]
    dsimp only
    rw [List.map_cons, List.map_cons, ih, peer_meet]

theorem meetAll_snd (net : Network σ) (g : Gossip) (ps : List Peer) :
    (meetAll net g ps).2 = { g with database := (meetAll net g ps).2.database } := by
  induction ps generalizing g with
  | nil => rfl
  | cons p ps ih =>
    rw [meetAll]
    dsimp only
    rw [ih, meet_snd]

/-- To meet a single peer changes the database, and the encounter is counted. -/
theorem syncWith_snd (net : Network σ) (g : Gossip) (p : Peer) :
    (g.syncWith net p).2 = { g with
      database := (g.syncWith net p).2.database
      statistics := g.statistics.count (g.syncWith net p).1 } := by
  have hstatistics : (meet net g p).2.statistics = g.statistics := by rw [meet_snd]
  rw [syncWith]
  dsimp only
  rw [hstatistics, meet_snd]

/-- A cycle changes the database, and it is counted. -/
theorem cycle_snd (net : Network σ) (draw : Nat → Nat) (known : List Peer) (g : Gossip) :
    (g.cycle net draw known).2 = { g with
      database := (g.cycle net draw known).2.database
      statistics := g.statistics.countCycle (g.cycle net draw known).1 } := by
  have hmeetAll := meetAll_snd net g (choose draw (max g.config.gossip.fanOut 1) (g.candidates known))
  have hstatistics : (meetAll net g (choose draw (max g.config.gossip.fanOut 1) (g.candidates known))).2.statistics
      = g.statistics := by rw [hmeetAll]
  rw [cycle]
  dsimp only
  rw [hstatistics, hmeetAll]

end Gossip

end DocMesh
