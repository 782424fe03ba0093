/-
# Peers that are heard

A running service notices two things: datagrams, and that it is time to look for peers that have fallen silent. What is
in its table then is told by what it has noticed: a peer is listed, as its last beacon told of it, from this beacon on
until a look finds it silent for longer than the window.

Main statements:

* `mem_table_hear`, `mem_table_sweep` : what a datagram and a look do to the table;
* `mem_table_notice` : what any signal does to it;
* `mem_table_noticeAll` : the table after any signals;
* `names_sweep` : a look names the peers that it strikes;
* `table_lists_heard` : all of this for a service that starts with an empty table.
-/
import DocMesh.Proofs.Discovery.Lifecycle
import DocMesh.Proofs.Ordered
import Mathlib.Data.List.Induction
import Mathlib.Data.String.Basic

namespace DocMesh.Discovery

/-! ## Signals -/

/-- What a running service notices. -/
inductive Signal where
  /-- A datagram arrives from a host. -/
  | datagram (bytes : Bytes) (sender : IpAddress) (now : Int64)
  /-- It is time to look for peers that have fallen silent. -/
  | sweep (now : Int64)

/-- The service after a signal. -/
def notice (d : Discovery) : Signal → Discovery
  | .datagram bytes sender now => (d.hear bytes sender now).2
  | .sweep now => (d.sweep now).2

/-- The service after the given signals, one after the other. -/
def noticeAll (d : Discovery) (signals : List Signal) : Discovery := signals.foldl notice d

namespace Signal

/-- A node of this id is told of the peer: by a well-formed beacon of another node, which names itself and a port other
than 0. The peer is at the host that sent the beacon, or at this host if all peers are taken to be there, and it was
heard when the beacon arrived. -/
def Tells (node : String) (config : DiscoveryConfig) (p : Peer) : Signal → Prop
  | datagram bytes sender now =>
    ∃ b, Beacon.parse? (bytes.take datagramLimit) = some b ∧ b.node ≠ node ∧ b.node ≠ "" ∧ b.port ≠ 0 ∧
      p = ⟨b.node, (if config.useLocalhost then .localhost else sender).endpointText b.port, now, .lan⟩
  | sweep _ => False

/-- The peer is not known any more as it was: there is a later beacon of the same node, or the peer is found to have
been silent for longer than the window. -/
def Ends (node : String) (config : DiscoveryConfig) (p : Peer) (s : Signal) : Prop :=
  (∃ q, s.Tells node config q ∧ p.id = q.id) ∨
    ∃ now, s = sweep now ∧ config.expiry < now.toInt - p.lastSeen.toInt

end Signal

/-- The peer as its last beacon told of it, if the peer has not been found silent since. -/
def Heard (node : String) (config : DiscoveryConfig) (signals : List Signal) (p : Peer) : Prop :=
  ∃ before s after, signals = before ++ s :: after ∧ s.Tells node config p ∧
    ∀ t ∈ after, ¬ t.Ends node config p

variable {d : Discovery} {p : Peer} {s : Signal} {signals : List Signal}

theorem heard_concat {node : String} {config : DiscoveryConfig} :
    Heard node config (signals ++ [s]) p ↔
      s.Tells node config p ∨ Heard node config signals p ∧ ¬ s.Ends node config p := by
  constructor
  · rintro ⟨before, t, after, hsplit, htells, hkept⟩
    rcases List.eq_nil_or_concat' after with rfl | ⟨after, u, rfl⟩
    · obtain ⟨-, hst⟩ := List.append_inj' hsplit rfl
      cases hst
      exact Or.inl htells
    · rw [← List.cons_append, ← List.append_assoc] at hsplit
      obtain ⟨hsignals, hsu⟩ := List.append_inj' hsplit rfl
      cases hsu
      refine Or.inr ⟨⟨before, t, after, hsignals, htells, ?_⟩, ?_⟩
      · exact fun t ht => hkept t (List.mem_append_left _ ht)
      · exact hkept s (List.mem_append_right _ List.mem_cons_self)
  · rintro (htells | ⟨⟨before, t, after, rfl, htells, hkept⟩, hs⟩)
    · exact ⟨signals, s, [], rfl, htells, List.forall_mem_nil _⟩
    · refine ⟨before, t, after ++ [s], by simp, htells, ?_⟩
      intro u hu
      rcases List.mem_append.1 hu with hu | hu
      · exact hkept u hu
      · rwa [List.mem_singleton.1 hu]

/-! ## One signal -/

/-- A signal changes nothing but the table. -/
theorem exists_notice_eq (d : Discovery) (s : Signal) : ∃ table, d.notice s = { d with table := table } := by
  cases s with
  | datagram bytes sender now =>
    rw [notice, hear]
    split_ifs
    · exact ⟨d.table, rfl⟩
    · split
      · exact ⟨d.table, rfl⟩
      · split_ifs
        · exact ⟨_, rfl⟩
        · exact ⟨d.table, rfl⟩
  | sweep now =>
    rw [notice, sweep]
    split_ifs
    · exact ⟨d.table, rfl⟩
    · exact ⟨_, rfl⟩

/-- Of what the service takes for a beacon the peer is told. -/
theorem tells_datagram_iff {bytes : Bytes} {sender : IpAddress} {now : Int64} :
    (Signal.datagram bytes sender now).Tells d.node d.config p ↔
      ∃ b, Beacon.parse? (bytes.take datagramLimit) = some b ∧ d.concerns b = true ∧ p = d.peerOf b sender now := by
  simp [Signal.Tells, concerns, peerOf, and_assoc]

/-- What a datagram does to the table. -/
theorem mem_table_hear (h : d.isRunning = true) (bytes : Bytes) (sender : IpAddress) (now : Int64) :
    p ∈ (d.hear bytes sender now).2.table.toList ↔
      (Signal.datagram bytes sender now).Tells d.node d.config p ∨
        p ∈ d.table.toList ∧
          ¬ ∃ q, (Signal.datagram bytes sender now).Tells d.node d.config q ∧ p.id = q.id := by
  simp only [tells_datagram_iff]
  rcases hb : Beacon.parse? (bytes.take datagramLimit) with _ | b
  · have htable : (d.hear bytes sender now).2.table = d.table := by simp [hear, h, hb]
    simp [htable]
  · by_cases hc : d.concerns b = true
    · have htable : (d.hear bytes sender now).2.table = d.table.insert (d.peerOf b sender now) := by
        simp [hear, h, hb, hc, PeerTable.upsert]
      simp [htable, Ordered.mem_insert, hc]
    · have htable : (d.hear bytes sender now).2.table = d.table := by simp [hear, h, hb, hc]
      simp [htable, hc]

/-- What a look for silent peers does to the table. -/
theorem mem_table_sweep (h : d.isRunning = true) (now : Int64) :
    p ∈ (d.sweep now).2.table.toList ↔
      p ∈ d.table.toList ∧ ¬ d.config.expiry < now.toInt - p.lastSeen.toInt := by
  rw [sweep, h]
  simp [PeerTable.expire, PeerTable.silent, Ordered.filter]

/-- **What a signal does to the table.** -/
theorem mem_table_notice (h : d.isRunning = true) (s : Signal) :
    p ∈ (d.notice s).table.toList ↔
      s.Tells d.node d.config p ∨ p ∈ d.table.toList ∧ ¬ s.Ends d.node d.config p := by
  cases s with
  | datagram bytes sender now =>
    rw [notice, mem_table_hear h]
    simp [Signal.Ends]
  | sweep now =>
    rw [notice, mem_table_sweep h]
    simp [Signal.Ends, Signal.Tells]

/-- **A look names the peers that it strikes**, in the order of their ids. -/
theorem names_sweep (h : d.isRunning = true) (now : Int64) :
    (d.sweep now).1 = (d.table.toList.map (·.id)).filter fun id => !(d.sweep now).2.table.contains id := by
  have hsweep : d.sweep now =
      ((d.table.expire now d.config.expiry).1, { d with table := (d.table.expire now d.config.expiry).2 }) := by
    simp [sweep, h]
  rw [hsweep, PeerTable.expire, List.filter_map]
  dsimp only
  congr 1
  apply List.filter_congr
  intro p hp
  rw [Function.comp_apply, Ordered.contains_filter_of_mem hp, Bool.not_not]

/-! ## Any signals -/

theorem exists_noticeAll_eq (d : Discovery) (signals : List Signal) :
    ∃ table, d.noticeAll signals = { d with table := table } := by
  induction signals generalizing d with
  | nil => exact ⟨d.table, rfl⟩
  | cons s signals ih =>
    obtain ⟨table, hs⟩ := exists_notice_eq d s
    obtain ⟨table', hsignals⟩ := ih (d.notice s)
    refine ⟨table', ?_⟩
    rw [noticeAll, List.foldl_cons, ← noticeAll, hsignals, hs]

theorem isRunning_noticeAll (d : Discovery) (signals : List Signal) :
    (d.noticeAll signals).isRunning = d.isRunning := by
  obtain ⟨table, hd⟩ := exists_noticeAll_eq d signals
  rw [hd]
  rfl

theorem noticeAll_concat (d : Discovery) (signals : List Signal) (s : Signal) :
    d.noticeAll (signals ++ [s]) = (d.noticeAll signals).notice s := List.foldl_concat notice d s signals

/-- **The table after any signals**: the peers that were heard, if it was empty. -/
theorem mem_table_noticeAll (h : d.isRunning = true) (htable : d.table = ∅) (signals : List Signal) :
    p ∈ (d.noticeAll signals).table.toList ↔ Heard d.node d.config signals p := by
  induction signals using List.reverseRecOn with
  | nil =>
    rw [noticeAll, List.foldl_nil, htable]
    refine iff_of_false List.not_mem_nil ?_
    rintro ⟨before, s, after, hsplit, -⟩
    exact List.append_ne_nil_of_right_ne_nil before (List.cons_ne_nil s after) hsplit.symm
  | append_singleton signals s ih =>
    have hrunning : (d.noticeAll signals).isRunning = true := (isRunning_noticeAll d signals).trans h
    obtain ⟨table, hd⟩ := exists_noticeAll_eq d signals
    have hnode : (d.noticeAll signals).node = d.node := by rw [hd]
    have hconfig : (d.noticeAll signals).config = d.config := by rw [hd]
    rw [noticeAll_concat, mem_table_notice hrunning, heard_concat, ih, hnode, hconfig]

/-- **The table of the local network is who was heard recently.** Of a running service that starts with an empty table,
after any datagrams and looks: a peer is in the table exactly if it was heard and not found silent since, as its last
beacon told of it; the ids ascend, so that there is one record for each; and a look names exactly the peers that it
strikes. -/
theorem table_lists_heard (h : d.isRunning = true) (htable : d.table = ∅) (signals : List Signal) :
    (∀ p, p ∈ (d.noticeAll signals).table.toList ↔ Heard d.node d.config signals p) ∧
      ((d.noticeAll signals).table.toList.Pairwise fun p q => p.id < q.id) ∧
      ∀ now, ((d.noticeAll signals).sweep now).1 =
        ((d.noticeAll signals).table.toList.map (·.id)).filter fun id =>
          !((d.noticeAll signals).sweep now).2.table.contains id := by
  refine ⟨fun p => mem_table_noticeAll h htable signals, ?_, ?_⟩
  · exact (d.noticeAll signals).table.ascending.imp compare_lt_iff_lt.1
  · exact names_sweep ((isRunning_noticeAll d signals).trans h)

/-- A peer that has been silent for just the window stays in the table, and is struck one millisecond later. -/
theorem table_lists_heard_window :
    let d : Discovery := { node := "a", config := {}, phase := .running 5000 }
    let b : Peer := ⟨"b", "10.0.0.2:7100", 1000, .lan⟩
    let beacons : List Signal :=
      [.datagram (.ofString (Beacon.record ⟨"b", 7100⟩).text) (.v4 10 0 0 2) 1000, .sweep 16000]
    d.isRunning = true ∧ d.table = ∅ ∧ b ∈ (d.noticeAll beacons).table.toList ∧
      b ∉ (d.noticeAll (beacons ++ [.sweep 16001])).table.toList := by
  intro d b beacons
  have hrunning : d.isRunning = true := rfl
  have htable : d.table = ∅ := rfl
  have htells : beacons[0].Tells d.node d.config b :=
    ⟨⟨"b", 7100⟩, by decide +kernel, by decide, by decide, by decide, by decide +kernel⟩
  have hheard : Heard d.node d.config beacons b := by
    refine ⟨[], beacons[0], [.sweep 16000], rfl, htells, ?_⟩
    intro t ht
    rw [List.mem_singleton.1 ht]
    rintro (⟨q, hq, -⟩ | ⟨now, hnow, hlonger⟩)
    · exact hq
    · cases hnow
      exact absurd hlonger (by decide)
  refine ⟨hrunning, htable, ((table_lists_heard hrunning htable beacons).1 b).2 hheard, ?_⟩
  rw [(table_lists_heard hrunning htable _).1 b, heard_concat]
  rintro (htells | ⟨-, hkept⟩)
  · exact htells
  · exact hkept (Or.inr ⟨16001, rfl, by decide⟩)

end DocMesh.Discovery
