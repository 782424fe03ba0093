/-
# Timestamps tell entries apart

No two entries of a cluster carry the same timestamp. A node never stamps two entries alike, also after it was opened
again: what it has stamped and applied is in its log, from which its clock starts. And an entry of another node, that
comes along with a timestamp of this node, was taken from this node's log once.

Main statements:

* `Sound.update`, `Sound.send` : what a node and its messages may turn into;
* `Sound.perform` : every move keeps a cluster sound;
* `timestamps_identify` : entries with the same timestamp are the same, wherever they are.
-/
import DocMesh.Proofs.Database.Dominance
import DocMesh.Proofs.Sync.Cluster
import Mathlib.Logic.Function.Iterate

namespace DocMesh

/-! ## Entries that were carried several times -/

namespace Entry

@[simp] theorem id_iterate_carried (n : Nat) (e : Entry) : (carried^[n] e).id = e.id := by
  induction n with
  | zero => rfl
  | succ n ih => rw [Function.iterate_succ_apply', id_carried, ih]

@[simp] theorem timestamp_iterate_carried (n : Nat) (e : Entry) :
    (carried^[n] e).timestamp = e.timestamp :=
  congrArg EntryId.timestamp (id_iterate_carried n e)

/-- An entry keeps its operation on its way. -/
@[simp] theorem operation_iterate_carried (n : Nat) (e : Entry) :
    (carried^[n] e).operation = e.operation := by
  induction n with
  | zero => rfl
  | succ n ih =>
    obtain ⟨payload, h⟩ := (carried^[n] e).exists_carried
    rw [Function.iterate_succ_apply', h]
    exact ih

end Entry

namespace Cluster

variable {ι : Type} {name : ι → String} {c : Cluster ι} {i j k : ι} {x : Member}
  {e a b : Entry} {m : Message}

/-! ## Where entries come from -/

/-- The entry was stamped at this node and waits to be applied, or it is in the log under the name of the node. -/
def Member.Made (x : Member) (node : String) (e : Entry) : Prop :=
  e ∈ x.pending ∨ e ∈ x.log ∧ e.timestamp.node = node

/-- What was made with one more stamp. -/
theorem made_cons (x : Member) (now : Int64) (a : Entry) (node : String) :
    Member.Made { x with database := (x.database.tick now).2, pending := a :: x.pending } node e ↔
      e = a ∨ x.Made node e := by
  rw [Member.Made, List.mem_cons, or_assoc]
  rfl

/-- The entry is what an entry in the log of the node that has stamped it has become on its way. -/
def Traced (name : ι → String) (c : Cluster ι) (e : Entry) : Prop :=
  ∃ k, ∃ o ∈ c.log k, o.timestamp.node = name k ∧ ∃ n, Entry.carried^[n] o = e

theorem Traced.carried (h : c.Traced name e) : c.Traced name e.carried := by
  obtain ⟨k, o, ho, hnode, n, rfl⟩ := h
  exact ⟨k, o, ho, hnode, n + 1, Function.iterate_succ_apply' Entry.carried n o⟩

/-- An entry that has come back to the node that has stamped it has its place in the log there. -/
theorem Traced.exists_mem_log (hname : Function.Injective name) (h : c.Traced name e)
    (hnode : e.timestamp.node = name i) : ∃ o ∈ c.log i, o.id = e.id := by
  obtain ⟨k, o, ho, hk, n, rfl⟩ := h
  rw [Entry.timestamp_iterate_carried, hk] at hnode
  rw [← hname hnode]
  exact ⟨o, ho, (Entry.id_iterate_carried n o).symm⟩

/-! ## Sound clusters -/

/-- Every node has its name, stamps under its name, and has not stamped two entries alike as long as there was time
left. Its clock is not behind what it has stamped. All entries, in logs or under way, come from the logs of the nodes
that have stamped them. -/
structure Sound (name : ι → String) (c : Cluster ι) : Prop where
  named : ∀ i, (c.members i).database.node = name i
  stamped : ∀ i, ∀ e ∈ (c.members i).pending, e.timestamp.node = name i
  clock : ∀ i e, (c.members i).Made (name i) e → e.timestamp.Within (c.members i).database.clock.last
  unique : ∀ i a b, (c.members i).Made (name i) a → (c.members i).Made (name i) b →
    a.timestamp = b.timestamp → a.timestamp.physical < Int64.maxValue → a = b
  logged : ∀ i, ∀ e ∈ c.log i, c.Traced name e
  exchanges : ∀ i, ∀ y ∈ (c.members i).exchanges, ∀ e ∈ y.outgoing, c.Traced name e
  messages : ∀ m ∈ c.messages, m.Carries (c.Traced name)

/-- What node `i` may turn into. -/
structure Step (name : ι → String) (c : Cluster ι) (i : ι) (x : Member) : Prop where
  named : x.database.node = name i
  stamped : ∀ e ∈ x.pending, e.timestamp.node = name i
  clock : ∀ e, x.Made (name i) e → e.timestamp.Within x.database.clock.last
  unique : ∀ a b, x.Made (name i) a → x.Made (name i) b →
    a.timestamp = b.timestamp → a.timestamp.physical < Int64.maxValue → a = b
  kept : ∀ e ∈ c.log i, e ∈ x.log
  logged : ∀ e ∈ x.log, e.timestamp.node = name i ∨ c.Traced name e
  exchanges : ∀ y ∈ x.exchanges, ∀ e ∈ y.outgoing, c.Traced name e

/-- A cluster stays sound when a message is sent. -/
theorem Sound.send (h : c.Sound name) (hm : m.Carries (c.Traced name)) : (c.send m).Sound name where
  named := h.named
  stamped := h.stamped
  clock := h.clock
  unique := h.unique
  logged := h.logged
  exchanges := h.exchanges
  messages := List.forall_mem_cons.2 ⟨hm, h.messages⟩

/-! ## What a node may turn into -/

/-- A node may apply what it has stamped, or what comes from elsewhere, and may forget what it has not applied, as
long as its clock is not behind what is left. -/
theorem Sound.step_of_grew (h : c.Sound name) (hname : Function.Injective name)
    (hnode : x.database.node = (c.members i).database.node)
    (hpending : ∀ e ∈ x.pending, e ∈ (c.members i).pending)
    (hgrew : Database.Grew (fun e => e ∈ (c.members i).pending ∨ c.Traced name e)
      (c.members i).database x.database)
    (hclock : ∀ e, (c.members i).Made (name i) e → x.Made (name i) e →
      e.timestamp.Within x.database.clock.last)
    (hexchanges : ∀ y ∈ x.exchanges, ∀ e ∈ y.outgoing, c.Traced name e) : c.Step name i x := by
  have hmade : ∀ e, x.Made (name i) e → (c.members i).Made (name i) e := by
    rintro e (he | ⟨he, hn⟩)
    · exact Or.inl (hpending e he)
    · rcases hgrew.new e he with hlog | hp | ht
      · exact Or.inr ⟨hlog, hn⟩
      · exact Or.inl hp
      · -- the place in the log was taken by the entry itself when it was applied here
        obtain ⟨o, ho, hid⟩ := ht.exists_mem_log hname hn
        rw [← Ordered.eq_of_key_eq (hgrew.kept o ho) he hid]
        refine Or.inr ⟨ho, ?_⟩
        rw [← hn]
        exact congrArg (·.timestamp.node) hid
  refine ⟨hnode.trans (h.named i), fun e he => h.stamped i e (hpending e he), ?_, ?_, hgrew.kept, ?_,
    hexchanges⟩
  · exact fun e he => hclock e (hmade e he) he
  · exact fun a b ha hb => h.unique i a b (hmade a ha) (hmade b hb)
  · intro e he
    rcases hgrew.new e he with hlog | hp | ht
    · exact Or.inr (h.logged i e hlog)
    · exact Or.inl (h.stamped i e hp)
    · exact Or.inr ht

/-- What arrives at a node may be stored. -/
theorem Sound.step_store (h : c.Sound name) (hname : Function.Injective name) {db : Database}
    (hgrew : Database.Grew (c.Traced name) (c.members i).database db) {ys : List Exchange}
    (hexchanges : ∀ y ∈ ys, ∀ e ∈ y.outgoing, c.Traced name e) :
    c.Step name i { (c.members i).store db.storage with exchanges := ys } := by
  refine h.step_of_grew hname rfl (fun _ he => he) ⟨hgrew.kept, ?_⟩ ?_ hexchanges
  · exact fun e he => (hgrew.new e he).imp_right Or.inr
  · exact fun e he _ => h.clock i e he

/-- The exchanges of a node may go on, as long as what they are to push can be traced. -/
theorem Sound.step_exchanges (h : c.Sound name) (hname : Function.Injective name) {ys : List Exchange}
    (hexchanges : ∀ y ∈ ys, ∀ e ∈ y.outgoing, c.Traced name e) :
    c.Step name i { c.members i with exchanges := ys } :=
  h.step_store hname (.refl _ _) hexchanges

/-- One of the exchanges of a node may go on with an answer whose entries can be traced, or without one. -/
theorem Sound.step_hear (h : c.Sound name) (hname : Function.Injective name) (i : ι) (n : Nat)
    {reply : Except NetworkError Message} (hreply : ∀ m, reply = .ok m → m.Carries (c.Traced name)) :
    c.Step name i ((c.members i).hear n reply) := by
  rw [Member.hear]
  split
  · rename_i y hy
    have hgrew := (Exchange.grew_receive hreply { y with database := (c.members i).database }).mono
      (Q := c.Traced name) (by rintro _ ⟨e, he, rfl⟩; exact he.carried)
    refine h.step_store hname hgrew ?_
    intro z hz e he
    rcases List.mem_or_eq_of_mem_set hz with hz | rfl
    · exact h.exchanges i z hz e he
    · rcases Exchange.mem_outgoing_receive he with he | he
      · exact h.exchanges i y (List.mem_of_getElem? hy) e he
      · exact h.logged i e he
  · exact h.step_exchanges hname (h.exchanges i)

/-- A stamp is new: it is later than all that the node has stamped, as long as there is time left. -/
theorem Sound.step_stamp (h : c.Sound name) (i : ι) (collection key : String) (operation : Operation)
    (payload : Option Json) (now : Int64) :
    c.Step name i ((c.members i).stamp collection key operation payload now) := by
  have hsame : c.Step name i (c.members i) :=
    ⟨h.named i, h.stamped i, h.clock i, h.unique i, fun _ he => he, fun e he => Or.inr (h.logged i e he),
      h.exchanges i⟩
  rw [Member.stamp]
  split
  · exact hsame
  have hnode : ((c.members i).database.tick now).1.node = name i :=
    (Clock.node_next _ _ now).trans (h.named i)
  -- what the node has made before does not have the new stamp
  have hfresh : ∀ b, (c.members i).Made (name i) b → b.timestamp = ((c.members i).database.tick now).1 →
      ¬ b.timestamp.physical < Int64.maxValue := by
    intro b hb heq htime
    have hlt : b.timestamp < ((c.members i).database.tick now).1 :=
      Database.lt_of_within (h.clock i b hb) (by rwa [← heq])
    rw [heq] at hlt
    exact Std.lt_irrefl hlt
  refine ⟨h.named i, ?_, ?_, ?_, hsame.kept, hsame.logged, hsame.exchanges⟩
  · exact List.forall_mem_cons.2 ⟨hnode, h.stamped i⟩
  · intro e he
    rw [made_cons] at he
    rcases he with rfl | he
    · exact Or.inl (Std.le_refl _)
    · exact (h.clock i e he).trans (Timestamp.within_next _ _ now)
  · intro a b ha hb heq htime
    rw [made_cons] at ha hb
    rcases ha with rfl | ha <;> rcases hb with rfl | hb
    · rfl
    · exact absurd (heq ▸ htime) (hfresh b hb heq.symm)
    · exact absurd htime (hfresh a ha heq)
    · exact h.unique i a b ha hb heq htime

/-- A stamped change may be applied. -/
theorem Sound.step_apply (h : c.Sound name) (hname : Function.Injective name) (i : ι) (e : Entry) :
    c.Step name i ((c.members i).apply e) := by
  rw [Member.apply]
  split
  · rename_i he
    refine h.step_of_grew hname ?_ ?_ ?_ ?_ (h.exchanges i)
    · dsimp only
      split
      · rename_i hb
        rw [Database.node, Database.clock_of_applyBatch hb]
        rfl
      · rfl
    · exact fun a ha => List.mem_of_mem_erase ha
    · dsimp only
      split
      · rename_i hb
        refine (Database.grew_applyBatch hb).mono ?_
        intro a ha
        rw [List.mem_singleton.1 ha]
        exact Or.inl he
      · exact .refl _ _
    · intro a ha _
      dsimp only
      split
      · rename_i hb
        rw [Database.clock_of_applyBatch hb]
        exact h.clock i a ha
      · exact h.clock i a ha
  · exact h.step_exchanges hname (h.exchanges i)

/-- The clock may take note of any timestamp. -/
theorem Sound.step_observe (h : c.Sound name) (hname : Function.Injective name) (i : ι) (t : Timestamp) :
    c.Step name i { c.members i with database.clock := (c.members i).database.clock.observe t } := by
  refine h.step_of_grew hname (Clock.node_observe _ t) (fun _ he => he)
    (Database.grew_of_storage_eq _ rfl) ?_ (h.exchanges i)
  intro e he _
  exact (h.clock i e he).trans (Or.inl (Clock.le_observe _ t))

/-- A node may be opened again at a positive time: the clock starts from the log, and the log has all that is left of
what the node has stamped. -/
theorem Sound.step_reopen (h : c.Sound name) (hname : Function.Injective name) (i : ι) {now : Int64}
    (hnow : 0 < now) : c.Step name i ((c.members i).reopen now) := by
  rw [Member.reopen]
  split
  · rename_i db hopen
    rw [Database.eq_of_open hopen]
    refine h.step_of_grew hname rfl (List.forall_mem_nil _) (Database.grew_of_storage_eq _ rfl) ?_
      (List.forall_mem_nil _)
    rintro e - (he | ⟨he, -⟩)
    · cases he
    · have hlog : e ∈ (c.members i).database.storage.store.log.toList := he
      exact Or.inl (Std.le_trans (Store.le_latest hlog) (Clock.le_seeded _ _ hnow))
  · exact h.step_exchanges hname (h.exchanges i)

/-! ## Moves -/

variable [DecidableEq ι]

/-- Where logs have lost nothing, entries can still be traced. -/
theorem Traced.update (h : c.Traced name e) (hkept : ∀ e ∈ c.log i, e ∈ x.log) :
    (c.update i x).Traced name e := by
  have hkept : ∀ k, ∀ o ∈ c.log k, o ∈ (c.update i x).log k :=
    forall_members_update (P := fun k y => ∀ o ∈ c.log k, o ∈ y.log) hkept fun _ _ ho => ho
  obtain ⟨k, o, ho, hnode, n, rfl⟩ := h
  exact ⟨k, o, hkept k o ho, hnode, n, rfl⟩

/-- A cluster stays sound when a node turns into what it may. -/
theorem Sound.update (h : c.Sound name) (hx : c.Step name i x) : (c.update i x).Sound name := by
  have htraced : ∀ e, c.Traced name e → (c.update i x).Traced name e := fun e he => he.update hx.kept
  -- an entry of the node's own is new in its log, but it is where it can be traced to
  have hlogged : ∀ k, ∀ e ∈ (c.update i x).log k, e.timestamp.node = name k ∨ c.Traced name e :=
    forall_members_update (P := fun k y => ∀ e ∈ y.log, e.timestamp.node = name k ∨ c.Traced name e)
      hx.logged fun k e he => Or.inr (h.logged k e he)
  have hexchanges : ∀ k, ∀ y ∈ ((c.update i x).members k).exchanges, ∀ e ∈ y.outgoing, c.Traced name e :=
    forall_members_update (P := fun _ y => ∀ z ∈ y.exchanges, ∀ e ∈ z.outgoing, c.Traced name e)
      hx.exchanges h.exchanges
  refine ⟨?_, ?_, ?_, ?_, ?_, fun k y hy e he => htraced e (hexchanges k y hy e he), ?_⟩
  · exact forall_members_update (P := fun k y => y.database.node = name k) hx.named h.named
  · exact forall_members_update (P := fun k y => ∀ e ∈ y.pending, e.timestamp.node = name k)
      hx.stamped h.stamped
  · exact forall_members_update
      (P := fun k y => ∀ e, y.Made (name k) e → e.timestamp.Within y.database.clock.last) hx.clock h.clock
  · exact forall_members_update
      (P := fun k y => ∀ a b, y.Made (name k) a → y.Made (name k) b →
        a.timestamp = b.timestamp → a.timestamp.physical < Int64.maxValue → a = b) hx.unique h.unique
  · intro k e he
    rcases hlogged k e he with hnode | ht
    · exact ⟨k, e, he, hnode, 0, rfl⟩
    · exact htraced e ht
  · intro m hm w hw
    obtain ⟨e, he, hwe⟩ := h.messages m hm w hw
    exact ⟨e, htraced e he, hwe⟩

/-- Every move keeps a cluster sound, if nodes are opened at positive times. -/
theorem Sound.perform (h : c.Sound name) (hname : Function.Injective name) (v : Move ι)
    (hnow : ∀ i now, v = .reopen i now → 0 < now) : (c.perform v).Sound name := by
  cases v with
  | stamp i collection key operation payload now =>
    exact h.update (h.step_stamp i collection key operation payload now)
  | apply i e => exact h.update (h.step_apply hname i e)
  | observe i t => exact h.update (h.step_observe hname i t)
  | exchange i budget =>
    refine h.update (h.step_exchanges hname ?_)
    intro y hy e he
    rcases List.mem_append.1 hy with hy | hy
    · exact h.exchanges i y hy e he
    · rw [List.mem_singleton.1 hy] at he
      cases he
  | ask i n =>
    rw [Cluster.perform]
    split
    · rename_i m hm
      obtain ⟨x, hx, hm⟩ := Option.bind_eq_some_iff.1 hm
      apply h.send
      intro w hw
      obtain ⟨e, he, rfl⟩ := Exchange.carries_request hm w hw
      exact ⟨e, h.exchanges i x (List.mem_of_getElem? hx) e he, rfl⟩
    · exact h
  | answer i m budget =>
    rw [Cluster.perform]
    split
    · rename_i hm
      have hgrew := (Responder.grew_answer (h.messages m hm) ((c.members i).responder budget)).mono
        (Q := c.Traced name) (by rintro _ ⟨e, he, rfl⟩; exact he.carried)
      have hstep := h.step_store hname hgrew (h.exchanges i)
      split
      · rename_i a r ha
        rw [ha] at hstep
        apply (h.update hstep).send
        intro w hw
        have hlog := Responder.mem_entries_answer (congrArg Prod.fst ha) w hw
        obtain ⟨e, he, rfl⟩ := hlog
        exact ⟨e, (h.logged i e he).update hstep.kept, rfl⟩
      · rename_i r ha
        rw [ha] at hstep
        exact h.update hstep
    · exact h
  | receive i n m =>
    rw [Cluster.perform]
    split
    · rename_i hm
      refine h.update (h.step_hear hname i n ?_)
      rintro _ ⟨rfl⟩
      exact h.messages m hm
    · exact h
  | lose i n e =>
    refine h.update (h.step_hear hname i n ?_)
    rintro m ⟨⟩
  | reopen i now => exact h.update (h.step_reopen hname i (hnow i now rfl))

theorem Sound.run (h : c.Sound name) (hname : Function.Injective name) {moves : List (Move ι)}
    (hnow : ∀ i now, .reopen i now ∈ moves → 0 < now) : (c.run moves).Sound name := by
  induction moves generalizing c with
  | nil => exact h
  | cons v moves ih =>
    apply ih (h.perform hname v fun i now hv => hnow i now (hv ▸ List.mem_cons_self))
    exact fun i now hv => hnow i now (List.mem_cons_of_mem v hv)

/-! ## Entries with the same timestamp -/

omit [DecidableEq ι] in
/-- New nodes are sound. -/
theorem sound_opened {db : ι → Database} {storage : ι → Storage} {start : ι → Int64}
    (hempty : ∀ i, (storage i).store.log = ∅)
    (hopen : ∀ i, Database.open (name i) (storage i) (start i) = .ok (db i)) :
    Sound name { members := fun i => { database := db i } } := by
  have hdb : ∀ i, db i = ⟨storage i, Clock.seeded (name i) (storage i).store.latest (start i)⟩ :=
    fun i => Database.eq_of_open (hopen i)
  have hlog : ∀ i, (db i).log = [] := by
    intro i
    rw [hdb, Database.log, hempty]
    rfl
  have hmade : ∀ i e, ¬ Member.Made { database := db i } (name i) e := by
    rintro i e (he | ⟨he, -⟩)
    · cases he
    · rw [Member.log, hlog] at he
      cases he
  refine ⟨?_, ?_, ?_, ?_, ?_, ?_, List.forall_mem_nil _⟩
  · intro i
    show (db i).node = name i
    rw [hdb]
    rfl
  · exact fun i => List.forall_mem_nil _
  · exact fun i e he => absurd he (hmade i e)
  · exact fun i a b ha => absurd ha (hmade i a)
  · intro i e he
    rw [log, Member.log, hlog] at he
    cases he
  · exact fun i => List.forall_mem_nil _

omit [DecidableEq ι] in
/-- In a sound cluster two entries of one timestamp are what one entry has become on two ways. -/
theorem Sound.exists_origin (h : c.Sound name) (hname : Function.Injective name) (ha : a ∈ c.log i)
    (hb : b ∈ c.log j) (heq : a.timestamp = b.timestamp) (htime : a.timestamp.physical < Int64.maxValue) :
    ∃ k, ∃ o ∈ c.log k, ∃ m n, Entry.carried^[m] o = a ∧ Entry.carried^[n] o = b := by
  obtain ⟨k, o, ho, hnode, m, rfl⟩ := h.logged i a ha
  obtain ⟨k', o', ho', hnode', n, rfl⟩ := h.logged j b hb
  rw [Entry.timestamp_iterate_carried, Entry.timestamp_iterate_carried] at heq
  rw [Entry.timestamp_iterate_carried] at htime
  -- both come from the log of the node that is named in the timestamp
  have hk : k = k' := by
    apply hname
    rw [← hnode, ← hnode', heq]
  subst hk
  have ho_eq : o = o' := h.unique k o o' (Or.inr ⟨ho, hnode⟩) (Or.inr ⟨ho', hnode'⟩) heq htime
  subst ho_eq
  exact ⟨k, o, ho, m, n, rfl, rfl⟩

/-- **Timestamps tell entries apart.** Some nodes with different names are opened on storages with empty logs. Any
number of writers write to them, the nodes exchange what they have, over lines that may delay, repeat and lose
messages, and they are closed and opened again at positive times, all this in any order and at whatever wall-clock
times. Then two entries of the same timestamp, in the logs of any nodes, are changes of the same kind to the same
document, and they are the same entry if those of this timestamp are not altered on their way. All this holds for
timestamps at which physical time has not run out. -/
theorem timestamps_identify (hname : Function.Injective name) {storage : ι → Storage} {start : ι → Int64}
    {db : ι → Database} (hempty : ∀ i, (storage i).store.log = ∅)
    (hopen : ∀ i, Database.open (name i) (storage i) (start i) = .ok (db i)) (moves : List (Move ι))
    (hnow : ∀ i now, .reopen i now ∈ moves → 0 < now) :
    let c := ({ members := fun i => { database := db i } } : Cluster ι).run moves
    ∀ i j, ∀ a ∈ c.log i, ∀ b ∈ c.log j, a.timestamp = b.timestamp →
      a.timestamp.physical < Int64.maxValue →
        a.id = b.id ∧ a.operation = b.operation ∧
          ((∀ k, ∀ e ∈ c.log k, e.timestamp = a.timestamp → e.carried = e) → a = b) := by
  intro c i j a ha b hb heq htime
  have hsound : c.Sound name := (sound_opened hempty hopen).run hname hnow
  obtain ⟨k, o, ho, m, n, rfl, rfl⟩ := hsound.exists_origin hname ha hb heq htime
  refine ⟨?_, ?_, ?_⟩
  · rw [Entry.id_iterate_carried, Entry.id_iterate_carried]
  · rw [Entry.operation_iterate_carried, Entry.operation_iterate_carried]
  · intro hcarried
    have hfixed : o.carried = o := hcarried k o ho (Entry.timestamp_iterate_carried m o).symm
    rw [Function.iterate_fixed hfixed, Function.iterate_fixed hfixed]

/-- Two writers of one node overlap, the other node pulls in between, and the first node is opened again while its
wall clock is behind its log; then it writes once more, and the other node pulls the rest. -/
theorem timestamps_identify_reopened :
    let name : Bool → String := fun i => if i then "b" else "a"
    let db : Bool → Database := fun i => ⟨{}, ⟨name i, ⟨10, 0, name i⟩⟩⟩
    let x : Entry := .put "notes" "x" (.ofInt 1) ⟨100, 0, "a"⟩
    let y : Entry := .delete "notes" "y" ⟨100, 1, "a"⟩
    let z : Entry := .put "notes" "z" .null ⟨100, 2, "a"⟩
    let stamp := fun (e : Entry) now => Move.stamp false e.collection e.key e.operation e.payload now
    let moves : List (Move Bool) := [stamp x 100, stamp y 50, .apply false y, .exchange true 1000, .ask true 0,
      .answer false .clockRequest 1000, .apply false x, .receive true 0 (.clockResponse y.timestamp),
      .ask true 0, .reopen false 20, stamp z 30, .apply false z, .answer false (.pullRequest .zero) 1000,
      .receive true 0 (.changeSet [.ofEntry x, .ofEntry y, .ofEntry z])]
    let c := ({ members := fun i => { database := db i } } : Cluster Bool).run moves
    c.log false = [x, y, z] ∧ c.log true = [x, y, z] ∧
      ∀ a ∈ c.log false, ∀ b ∈ c.log true, a.timestamp = b.timestamp → a = b := by
  intro name db x y z stamp moves c
  have hname : Function.Injective name := by
    intro i j
    cases i <;> cases j <;> decide
  have hopen : ∀ i, Database.open (name i) ((fun _ => {}) i) ((fun _ => 10) i) = .ok (db i) := by
    intro i
    cases i <;> rfl
  have hnow : ∀ i now, .reopen i now ∈ moves → 0 < now := by
    intro i now hmem
    have hnow : .reopen i now = Move.reopen false 20 := by simpa [moves, stamp] using hmem
    cases hnow
    decide
  have hlog : c.log false = [x, y, z] ∧ c.log true = [x, y, z] := by decide +kernel
  refine ⟨hlog.1, hlog.2, ?_⟩
  intro a ha b hb heq
  have hidentify := timestamps_identify hname (fun _ => rfl) hopen moves hnow false true a ha b hb heq
  have hcarried : ∀ e ∈ [x, y, z], e.carried = e ∧ e.timestamp.physical < Int64.maxValue := by
    decide +kernel
  refine (hidentify (hcarried a (hlog.1 ▸ ha)).2).2.2 ?_
  intro k e he _
  cases k with
  | false => exact (hcarried e (hlog.1 ▸ he)).1
  | true => exact (hcarried e (hlog.2 ▸ he)).1

end Cluster

end DocMesh
