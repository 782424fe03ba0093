/-
# The peers that a node knows

A node knows the peers that are heard on the local network, if it listens there, and those in the register of its
storage, to which it adds the peers of its configuration when it starts. Of two records for one id the one that was
heard counts. A node that listens on the local network leaves itself out of what it knows; one that does not listen
there takes the register as it is, and knows itself if it is registered.

Main statements:

* `Peer.mem_merge` : two lists of peers as one;
* `Wired.step`, `wired_of_reaches` : what is so from the making of a node on, whatever happens to it;
* `exists_registered_of_start` : a start registers the peers of the configuration;
* `Wired.mem_activePeers` : the peers that a node knows;
* `active_peers_known` : all of this for a node that was made from a configuration;
* `knows_itself` : a node that knows itself.
-/
import DocMesh.Node.Basic
import DocMesh.Proofs.Discovery.Hearing
import DocMesh.Proofs.Sync.Gossip
import Mathlib.Logic.Relation

namespace DocMesh

/-! ## Two lists of peers -/

/-- **Two lists of peers as one**: the peers of the first list, and those of the second with other ids. -/
theorem Peer.mem_merge {preferred others : List Peer} (hpreferred : Ascending Peer.id preferred)
    (hothers : Ascending Peer.id others) {p : Peer} :
    p ∈ Peer.merge preferred others ↔ p ∈ preferred ∨ p ∈ others ∧ ∀ q ∈ preferred, q.id ≠ p.id := by
  rw [Peer.merge, Ordered.ofList, List.foldl_append, Ordered.mem_foldl_insert (hpreferred.imp ne_of_compare_eq_lt),
    Ordered.mem_foldl_insert (hothers.imp ne_of_compare_eq_lt)]
  have hempty : p ∉ (∅ : Ordered Peer.id).toList := List.not_mem_nil
  simp [hempty]

theorem Peer.ascending_merge (preferred others : List Peer) : Ascending Peer.id (Peer.merge preferred others) :=
  Ordered.ascending _

/-! ## Registering peers -/

namespace NodeConfig

/-- A peer with which nothing is wrong can be registered. -/
theorem savePeer_eq {p : Peer} (h : peerFault? p = none) (s : Store) :
    s.savePeer p = .ok { s with peers := s.peers.insert p } := by
  rw [peerFault?] at h
  rw [Store.savePeer]
  split_ifs at h ⊢
  rcases hendpoint : p.endpoint with e | endpoint
  · rw [hendpoint] at h
    cases h
  · rfl

end NodeConfig

/-! ## The discovery service of a node -/

namespace Discovery

theorem node_begin (d : Discovery) : d.begin.2.node = d.node := by
  unfold begin
  split <;> rfl

theorem node_finish (d : Discovery) (a : Attempt) (bound : Except NetworkError UInt16) :
    (d.finish a bound).2.node = d.node := by
  unfold finish
  split
  · split_ifs <;> rfl
  all_goals rfl

theorem node_start (d : Discovery) (bind : UInt16 → Except NetworkError UInt16) : (d.start bind).2.node = d.node := by
  have hbegin := node_begin d
  unfold start
  generalize d.begin = result at hbegin ⊢
  obtain ⟨_ | _ | a, d'⟩ := result
  · exact hbegin
  · exact hbegin
  · exact (node_finish d' a _).trans hbegin

theorem node_pause (d : Discovery) : d.pause.node = d.node := by
  unfold pause
  split <;> rfl

theorem node_notice (d : Discovery) (s : Signal) : (d.notice s).node = d.node := by
  obtain ⟨table, hd⟩ := exists_notice_eq d s
  rw [hd]

end Discovery

namespace Node

/-! ## What may happen to a node -/

/-- What may become of a node in one step. -/
inductive Step (n : Node) : Node → Prop where
  /-- Something is done with the database: by a program, for a peer that asks, or to the register of peers. -/
  | database (db : Database) : Step n { n with gossip.database := db }
  | start (port : Except NetworkError UInt16) (bind : UInt16 → Except NetworkError UInt16) :
    Step n (n.start port bind).2
  | stop : Step n n.stop
  | pause : Step n n.pauseDiscovery
  | resume (bind : UInt16 → Except NetworkError UInt16) : Step n (n.resumeDiscovery bind).2
  /-- The discovery service notices something. -/
  | notice {d : Discovery} (h : n.discovery = some d) (s : Discovery.Signal) :
    Step n { n with discovery := some (d.notice s) }
  /-- A cycle is run. -/
  | sync {σ : Type} (net : Network σ) (draw : Nat → Nat) : Step n (n.sync net draw).2
  | elect : Step n n.elect

/-- The node goes by the configuration, and listens on the local network if it says so. -/
structure Wired (c : NodeConfig) (n : Node) : Prop where
  config : n.config = c
  listens : n.discovery.isSome = c.discovery.enabled
  node : ∀ d ∈ n.discovery, d.node = c.node

variable {c : NodeConfig} {db : Database} {n m : Node} {p : Peer} {ps : List Peer}
  {port : Except NetworkError UInt16} {bind : UInt16 → Except NetworkError UInt16}

theorem create_eq_ok_iff :
    Node.create c db = .ok n ↔
      c.validate = .ok () ∧ c.node = db.node ∧
        n = { gossip := { config := c, database := db }
              discovery := if c.discovery.enabled then some { node := c.node, config := c.discovery } else none
              election := { node := c.node } } := by
  rw [create]
  rcases c.validate with e | ⟨⟩
  · simp
  · dsimp only
    by_cases howner : c.node = db.node
    · rw [if_pos howner, Except.ok.injEq]
      exact ⟨fun heq => ⟨rfl, howner, heq.symm⟩, fun h => h.2.2.symm⟩
    · rw [if_neg howner]
      exact iff_of_false nofun fun h => howner h.2.1

theorem wired_of_create (h : Node.create c db = .ok n) : Wired c n := by
  obtain ⟨-, -, rfl⟩ := create_eq_ok_iff.1 h
  refine ⟨rfl, ?_, ?_⟩
  · dsimp only
    split_ifs with henabled
    · exact henabled.symm
    · exact (Bool.eq_false_iff.2 henabled).symm
  · intro d hd
    dsimp only at hd
    split_ifs at hd
    · rw [← Option.some.inj hd]
    · cases hd

/-- Nothing else is asked of the discovery service than to keep the id of the node. -/
theorem Wired.map {f : Discovery → Discovery} (h : Wired c n) (hf : ∀ d, (f d).node = d.node)
    (hconfig : m.config = n.config) (hdiscovery : m.discovery = n.discovery.map f) : Wired c m := by
  refine ⟨hconfig.trans h.config, ?_, ?_⟩
  · rw [hdiscovery, Option.isSome_map, h.listens]
  · intro d' hd'
    rw [hdiscovery] at hd'
    obtain ⟨d, hd, rfl⟩ := Option.map_eq_some_iff.1 hd'
    rw [hf, h.node d hd]

theorem Wired.congr (h : Wired c n) (hconfig : m.config = n.config) (hdiscovery : m.discovery = n.discovery) :
    Wired c m :=
  h.map (f := id) (fun _ => rfl) hconfig (by rw [hdiscovery, Option.map_id_fun, id])

/-! ## Starting -/

/-- Peers that are registered, all or the first of them, change nothing but the database. -/
theorem exists_addPeers_eq (n : Node) (ps : List Peer) :
    ∃ db, (n.addPeers ps).2 = { n with gossip.database := db } := by
  induction ps generalizing n with
  | nil => exact ⟨n.database, rfl⟩
  | cons p ps ih =>
    rw [addPeers, addPeer]
    rcases n.database.savePeer p with e | db
    · exact ⟨n.database, rfl⟩
    · exact ih { n with gossip.database := db }

theorem elect_keeps (n : Node) :
    n.elect.config = n.config ∧ n.elect.database = n.database ∧ n.elect.discovery = n.discovery := by
  unfold elect
  split_ifs <;> exact ⟨rfl, rfl, rfl⟩

theorem finishStart_keeps (n : Node) (started : Except NetworkError Unit × Discovery) :
    (n.finishStart started).2.config = n.config ∧ (n.finishStart started).2.database = n.database ∧
      (n.finishStart started).2.discovery = some started.2 := by
  obtain ⟨_ | _, d⟩ := started
  · exact ⟨rfl, rfl, rfl⟩
  · exact elect_keeps _

/-- A start touches the database only to register peers, and the discovery service keeps its id. -/
theorem start_keeps (n : Node) (port : Except NetworkError UInt16) (bind : UInt16 → Except NetworkError UInt16) :
    (n.start port bind).2.config = n.config ∧
      (n.start port bind).2.database = (n.addPeers n.config.staticPeers).2.database ∧
      ∃ f : Discovery → Discovery, (∀ d, (f d).node = d.node) ∧
        (n.start port bind).2.discovery = n.discovery.map f := by
  have hid : n.discovery = n.discovery.map id := by rw [Option.map_id_fun, id]
  obtain ⟨db, hadded⟩ := exists_addPeers_eq n n.config.staticPeers
  unfold start
  generalize n.addPeers n.config.staticPeers = added at hadded ⊢
  obtain ⟨_ | _, n'⟩ := added
  all_goals
    dsimp only at hadded
    subst hadded
    dsimp only
  -- a start that fails with the register or with the port goes no further
  · exact ⟨rfl, rfl, id, fun _ => rfl, hid⟩
  · rcases n.listening.elim port .ok with e | port
    · exact ⟨rfl, rfl, id, fun _ => rfl, hid⟩
    -- and one that has a port keeps all this, whether the discovery service can be started or not
    · dsimp only
      rcases hd : n.discovery with _ | d
      · dsimp only
        obtain ⟨hconfig, hdatabase, hdiscovery⟩ := elect_keeps
          { n with gossip := { n.gossip with database := db }.start, discovery := none, listening := some port }
        exact ⟨hconfig, hdatabase, id, fun _ => rfl, hdiscovery⟩
      · dsimp only
        obtain ⟨hconfig, hdatabase, hdiscovery⟩ := finishStart_keeps
          { n with gossip.database := db, discovery := some d, listening := some port }
          ({ d with listening := port }.start bind)
        let f : Discovery → Discovery := fun d => ({ d with listening := port }.start bind).2
        exact ⟨hconfig, hdatabase, f, fun d => Discovery.node_start _ bind, hdiscovery⟩

/-! ## The register -/

/-- The register of a storage that does not fail. -/
theorem registered_eq (h : n.database.storage.fault = none) : n.registered = n.database.storage.store.peers.toList := by
  rw [registered, Storage.read, h]
  rfl

theorem ascending_registered (n : Node) : Ascending Peer.id n.registered := by
  rw [registered, Storage.read]
  rcases n.database.storage.fault with _ | reason
  · exact n.database.storage.store.peers.ascending
  · exact List.Pairwise.nil

theorem addPeer_eq (hfault : n.database.storage.fault = none) (h : NodeConfig.peerFault? p = none) :
    n.addPeer p =
      .ok { n with gossip.database.storage.store.peers := n.database.storage.store.peers.insert p } := by
  have hfault' : n.gossip.database.storage.fault = none := hfault
  rw [addPeer, Database.savePeer, Storage.update, hfault]
  dsimp only
  rw [NodeConfig.savePeer_eq h, hfault']
  rfl

/-- Peers with which nothing is wrong are registered one after the other, if the storage does not fail. -/
theorem addPeers_eq (hfault : n.database.storage.fault = none) (h : ∀ p ∈ ps, NodeConfig.peerFault? p = none) :
    n.addPeers ps =
      (.ok (), { n with
        gossip.database.storage.store.peers := ps.foldl Ordered.insert n.database.storage.store.peers }) := by
  induction ps generalizing n with
  | nil => rfl
  | cons p ps ih =>
    obtain ⟨hp, hps⟩ := List.forall_mem_cons.1 h
    rw [addPeers, addPeer_eq hfault hp]
    exact ih hfault hps

/-- **A start registers the static peers**, whatever else becomes of it. -/
theorem exists_registered_of_start (hvalid : n.config.validate = .ok ()) (hfault : n.database.storage.fault = none)
    (port : Except NetworkError UInt16) (bind : UInt16 → Except NetworkError UInt16) (hp : p ∈ n.config.staticPeers) :
    ∃ q ∈ (n.start port bind).2.registered, q.id = p.id := by
  obtain ⟨-, hdatabase, -⟩ := start_keeps n port bind
  rw [addPeers_eq hfault (NodeConfig.validate_eq_ok_iff.1 hvalid).2.2.2] at hdatabase
  have hfault' : (n.start port bind).2.database.storage.fault = none := by
    rw [hdatabase]
    exact hfault
  rw [registered_eq hfault', hdatabase]
  exact Ordered.exists_mem_foldl_insert hp _

/-! ## Steps -/

theorem Wired.step (h : Wired c n) (hstep : Step n m) : Wired c m := by
  cases hstep with
  | database db => exact h.congr rfl rfl
  | start port bind =>
    obtain ⟨hconfig, -, f, hf, hdiscovery⟩ := start_keeps n port bind
    exact h.map hf hconfig hdiscovery
  | stop => exact h.map (f := Discovery.stop) (fun _ => rfl) rfl rfl
  | pause => exact h.map Discovery.node_pause rfl rfl
  | resume bind =>
    unfold resumeDiscovery
    rcases hd : n.discovery with _ | d
    · exact h
    · exact h.map (f := fun d => (d.start bind).2) (fun d => Discovery.node_start d bind) rfl (by rw [hd]; rfl)
  | notice hd s => exact h.map (f := (Discovery.notice · s)) (Discovery.node_notice · s) rfl (by rw [hd]; rfl)
  | sync net draw =>
    have hconfig : (n.gossip.cycle net draw n.activePeers).2.config = n.gossip.config := by rw [Gossip.cycle_snd]
    exact h.congr hconfig rfl
  | elect =>
    obtain ⟨hconfig, -, hdiscovery⟩ := elect_keeps n
    exact h.congr hconfig hdiscovery

/-- **What is so from the making of a node on**, whatever happens to it. -/
theorem wired_of_reaches (h : Node.create c db = .ok n) (hreaches : Relation.ReflTransGen Step n m) : Wired c m := by
  induction hreaches with
  | refl => exact wired_of_create h
  | tail _ hstep ih => exact ih.step hstep

/-! ## The peers that a node knows -/

/-- The peers that were heard on the local network. -/
def heard (n : Node) : List Peer :=
  match n.discovery with
  | some d => d.table.toList
  | none => []

theorem ascending_heard (n : Node) : Ascending Peer.id n.heard := by
  unfold heard
  rcases n.discovery with _ | d
  · exact List.Pairwise.nil
  · exact d.table.ascending

/-- Who does not listen hears nobody. -/
theorem Wired.heard_eq_nil (h : Wired c n) (hdisabled : c.discovery.enabled = false) : n.heard = [] := by
  have hlistens := h.listens
  rw [hdisabled, Option.isSome_eq_false_iff, Option.isNone_iff_eq_none] at hlistens
  rw [heard, hlistens]

/-- With and without a discovery service, the peers that are known are a merged list without the peers that are left
out. -/
theorem Wired.activePeers_eq (h : Wired c n) :
    n.activePeers = (Peer.merge n.heard n.registered).filter fun p => p.id != c.node || !c.discovery.enabled := by
  obtain ⟨-, hlistens, hnode⟩ := h
  unfold activePeers heard
  rcases hd : n.discovery with _ | d
  · rw [hd] at hlistens
    simp [← hlistens]
  · rw [hd] at hlistens
    simp [← hlistens, Discovery.activePeers, hnode d hd]

/-- **The peers that a node knows**: those that were heard, and the registered ones with other ids. A node that listens
on the local network leaves itself out. -/
theorem Wired.mem_activePeers (h : Wired c n) :
    p ∈ n.activePeers ↔
      (p ∈ n.heard ∨ p ∈ n.registered ∧ ∀ q ∈ n.heard, q.id ≠ p.id) ∧
        (p.id = c.node → c.discovery.enabled = false) := by
  rw [h.activePeers_eq, List.mem_filter, Peer.mem_merge n.ascending_heard n.ascending_registered]
  simp [imp_iff_not_or]

/-- Of a registered peer other than the node itself some record is among the peers that the node knows. -/
theorem Wired.exists_mem_activePeers (h : Wired c n) (hp : p ∈ n.registered) (hother : p.id ≠ c.node) :
    ∃ q ∈ n.activePeers, q.id = p.id := by
  by_cases hheard : ∃ q ∈ n.heard, q.id = p.id
  · obtain ⟨q, hq, hqp⟩ := hheard
    exact ⟨q, h.mem_activePeers.2 ⟨Or.inl hq, fun hown => absurd (hqp.symm.trans hown) hother⟩, hqp⟩
  · have hnone : ∀ q ∈ n.heard, q.id ≠ p.id := fun q hq hqp => hheard ⟨q, hq, hqp⟩
    exact ⟨p, h.mem_activePeers.2 ⟨Or.inr ⟨hp, hnone⟩, fun hown => absurd hown hother⟩, rfl⟩

/-- **The peers that a node knows, whatever has happened to it.** Of a node that was made from a configuration: they are
listed by id, each once; they are the peers that were heard and the registered ones with other ids, without the node
itself if it listens on the local network; the node knows itself exactly if it does not listen there and is registered;
and after any start it knows the other static peers, unless its storage fails. -/
theorem active_peers_known (h : Node.create c db = .ok n) (hreaches : Relation.ReflTransGen Step n m) :
    (m.activePeers.Pairwise fun p q => p.id < q.id) ∧
      (∀ p, p ∈ m.activePeers ↔ (p ∈ m.heard ∨ p ∈ m.registered ∧ ∀ q ∈ m.heard, q.id ≠ p.id) ∧
        (p.id = c.node → c.discovery.enabled = false)) ∧
      ((∃ p ∈ m.activePeers, p.id = c.node) ↔
        c.discovery.enabled = false ∧ ∃ p ∈ m.registered, p.id = c.node) ∧
      (m.database.storage.fault = none → ∀ port bind, ∀ p ∈ c.staticPeers, p.id ≠ c.node →
        ∃ q ∈ (m.start port bind).2.activePeers, q.id = p.id) := by
  have hwired := wired_of_reaches h hreaches
  refine ⟨?_, fun p => hwired.mem_activePeers, ?_, ?_⟩
  · rw [hwired.activePeers_eq]
    exact ((Peer.ascending_merge m.heard m.registered).filter _).imp compare_lt_iff_lt.1
  · constructor
    · rintro ⟨p, hp, hown⟩
      obtain ⟨hknown, henabled⟩ := hwired.mem_activePeers.1 hp
      refine ⟨henabled hown, ?_⟩
      rcases hknown with hheard | ⟨hregistered, -⟩
      · rw [hwired.heard_eq_nil (henabled hown)] at hheard
        cases hheard
      · exact ⟨p, hregistered, hown⟩
    · rintro ⟨henabled, p, hregistered, hown⟩
      refine ⟨p, hwired.mem_activePeers.2 ⟨Or.inr ⟨hregistered, ?_⟩, fun _ => henabled⟩, hown⟩
      rw [hwired.heard_eq_nil henabled]
      exact List.forall_mem_nil _
  · intro hfault port bind p hp hother
    have hstarted := hwired.step (.start port bind)
    rw [← hwired.config] at hp
    obtain ⟨q, hq, hqp⟩ := exists_registered_of_start (hwired.config ▸ (create_eq_ok_iff.1 h).1) hfault port bind hp
    obtain ⟨r, hr, hrq⟩ := hstarted.exists_mem_activePeers hq (hqp ▸ hother)
    exact ⟨r, hr, hrq.trans hqp⟩

/-- A node that has started and heard a peer knows it as it was heard, and not as it was configured. -/
theorem active_peers_known_heard :
    let c : NodeConfig := { node := "a", token := "t", staticPeers := [⟨"b", "127.0.0.1:9", 0, .static⟩] }
    let b : Peer := ⟨"b", "10.0.0.2:7100", 1000, .lan⟩
    ∃ db n m, Database.open "a" {} 0 = .ok db ∧ Node.create c db = .ok n ∧ Relation.ReflTransGen Step n m ∧
      m.registered = c.staticPeers ∧ m.heard = [b] ∧ b ∈ m.activePeers ∧ ∀ p ∈ m.activePeers, p.id ≠ "a" := by
  intro c b
  let db : Database := ⟨{}, Clock.seeded "a" .zero 0⟩
  let n : Node :=
    { gossip := ⟨c, db, {}, false⟩, discovery := some ⟨"a", {}, 0, ∅, .idle⟩, election := { node := "a" } }
  have hcreate : Node.create c db = .ok n := create_eq_ok_iff.2 ⟨by decide +kernel, rfl, rfl⟩
  let d : Discovery := ⟨"a", {}, 7000, ∅, .running 5000⟩
  let beacon : Discovery.Signal := .datagram (.ofString (Beacon.record ⟨"b", 7100⟩).text) (.v4 10 0 0 2) 1000
  let started : Node := (n.start (.ok 7000) .ok).2
  let m : Node := { started with discovery := some (d.notice beacon) }
  have hreaches : Relation.ReflTransGen Step n m :=
    .tail (.single (.start (.ok 7000) .ok)) (.notice (d := d) rfl beacon)
  have hregistered : m.registered = c.staticPeers := by decide +kernel
  have hheard : m.heard = [b] := by decide +kernel
  obtain ⟨-, hmem, hown, -⟩ := active_peers_known hcreate hreaches
  refine ⟨db, n, m, rfl, hcreate, hreaches, hregistered, hheard, ?_, ?_⟩
  · refine (hmem b).2 ⟨Or.inl ?_, by decide⟩
    rw [hheard]
    exact List.mem_singleton.2 rfl
  · exact fun p hp hid => Bool.false_ne_true (hown.1 ⟨p, hp, hid⟩).1.symm

/-- **A node that knows itself**: it does not listen on the local network, and its configuration names itself. -/
theorem knows_itself :
    let c : NodeConfig :=
      { node := "a", token := "t", discovery := { enabled := false }
        staticPeers := [⟨"a", "127.0.0.1:9", 0, .static⟩, ⟨"b", "127.0.0.1:9", 0, .static⟩] }
    ∃ db n m, Database.open "a" {} 0 = .ok db ∧ Node.create c db = .ok n ∧ n.start (.ok 0) .ok = (.ok (), m) ∧
      m.activePeers.map (·.id) = [c.node, "b"] := by
  intro c
  let db : Database := ⟨{}, Clock.seeded "a" .zero 0⟩
  let n : Node := { gossip := ⟨c, db, {}, false⟩, election := { node := "a" } }
  have hcreate : Node.create c db = .ok n := create_eq_ok_iff.2 ⟨by decide +kernel, rfl, rfl⟩
  exact ⟨db, n, (n.start (.ok 0) .ok).2, rfl, hcreate, rfl, by decide +kernel⟩

end Node

end DocMesh
