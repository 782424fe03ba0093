/-
# Convergence where writes are merged

Replicas that merge the writes of a document field by field, and that have been given the same entries, need not
agree: a write that is older than a deletion brings the document back if it comes after the deletion, and the
merging resolver stamps a document as a whole, so that an older write of a field stays if a write of another
field comes before the newer one. The replicas agree exactly on those entries that are reconcilable.

Main statements:

* `find?_applyAll` : the documents of a store are what the resolver makes of the entries for each of them;
* `agree_iff_reconcilable` : replicas agree after every set of entries of `U` exactly if `U` is reconcilable;
* `not_agree` : a deletion and an older write, and likewise three writes, on which replicas do not agree.
-/
import DocMesh.Proofs.Resolver.Replay
import DocMesh.Proofs.Store.Convergence

namespace DocMesh

namespace Store

open Resolver Json

variable {U : Set Entry} {E : Finset Entry} {id : DocumentId} {es fs : List Entry} {a b c : Entry}

/-! ## Documents one by one -/

/-- The entries for one document. -/
def entriesOf (id : DocumentId) (es : List Entry) : List Entry := es.filter (·.documentId = id)

theorem entriesOf_eq_self (h : ∀ e ∈ es, e.documentId = id) : entriesOf id es = es := by
  rw [entriesOf, List.filter_eq_self]
  intro e he
  exact decide_eq_true (h e he)

theorem entriesOf_cons (id : DocumentId) (e : Entry) (es : List Entry) :
    entriesOf id (e :: es) = if e.documentId = id then e :: entriesOf id es else entriesOf id es := by
  rw [entriesOf, List.filter_cons, ← entriesOf]
  simp only [decide_eq_true_iff]

/-- Each document of a store is what the resolver makes of the entries for it. -/
theorem find?_applyAll (s : Store) (es : List Entry) (id : DocumentId) :
    (s.applyAll es).documents.find? id
      = s.resolver.replay (s.documents.find? id) (entriesOf id es) := by
  induction es generalizing s with
  | nil => rfl
  | cons e es ih =>
    rw [applyAll_cons, ih, resolver_applyEntry, find?_applyEntry, entriesOf_cons]
    by_cases he : e.documentId = id
    · rw [if_pos he, if_pos he, replay_cons]
    · rw [if_neg he, if_neg he]

/-! ## Agreement -/

/-- New stores that merge writes accept the entries of `E` and end with the same documents, whatever the order and
the batches are in which each of the entries is given to them once. -/
def Agree (E : Finset Entry) : Prop :=
  ∀ bs cs : List (List Entry), bs.flatten.Nodup → cs.flatten.Nodup →
    (∀ e, e ∈ bs.flatten ↔ e ∈ E) → (∀ e, e ∈ cs.flatten ↔ e ∈ E) →
    ∃ s t, applyBatches { resolver := .recursiveMerge } bs = .ok s ∧
      applyBatches { resolver := .recursiveMerge } cs = .ok t ∧ s.documents = t.documents

/-- Where stores agree, the entries of one document can be replayed in any order. -/
theorem Agree.replay_eq (h : Agree es.toFinset) (hvalid : ∀ e ∈ es, entryFault? e = none)
    (hid : ∀ e ∈ es, e.documentId = id) (hnodup : es.Nodup) (hperm : es.Perm fs) :
    recursiveMerge.replay none es = recursiveMerge.replay none fs := by
  have hes : [es].flatten = es := by simp
  have hfs : [fs].flatten = fs := by simp
  have hvalides : ∀ e ∈ [es].flatten, entryFault? e = none := by rwa [hes]
  have hvalidfs : ∀ e ∈ [fs].flatten, entryFault? e = none := by
    rw [hfs]
    exact fun e he => hvalid e (hperm.mem_iff.2 he)
  obtain ⟨s, t, hs, ht, hdocs⟩ := h [es] [fs] (by rwa [hes]) (by rw [hfs]; exact hperm.nodup_iff.1 hnodup)
    (by rw [hes]; exact fun e => List.mem_toFinset.symm)
    (by rw [hfs]; exact fun e => hperm.symm.mem_iff.trans List.mem_toFinset.symm)
  obtain ⟨f, hf⟩ := applyBatches_eq_ok { resolver := .recursiveMerge } hvalides
  obtain ⟨g, hg⟩ := applyBatches_eq_ok { resolver := .recursiveMerge } hvalidfs
  rw [hf, hes] at hs
  rw [hg, hfs] at ht
  cases hs
  cases ht
  have hfind := congrArg (fun d : Ordered Document.id => d.find? id) hdocs
  dsimp only at hfind
  rw [find?_applyAll, find?_applyAll, entriesOf_eq_self hid,
    entriesOf_eq_self fun e he => hid e (hperm.mem_iff.2 he)] at hfind
  exact hfind

/-- Stores agree on reconcilable entries. -/
theorem agree_of_reconcilable (hU : Reconcilable U) (hvalid : ∀ e ∈ U, entryFault? e = none)
    (hwf : ∀ e ∈ U, e.content.WellFormed) (hts : ∀ a ∈ U, ∀ b ∈ U, a.timestamp = b.timestamp → a = b)
    (hE : ∀ e ∈ E, e ∈ U) : Agree E := by
  intro bs cs hbs hcs hbE hcE
  have hvalidbs : ∀ e ∈ bs.flatten, entryFault? e = none := fun e he => hvalid e (hE e ((hbE e).1 he))
  have hvalidcs : ∀ e ∈ cs.flatten, entryFault? e = none := fun e he => hvalid e (hE e ((hcE e).1 he))
  obtain ⟨f, hf⟩ := applyBatches_eq_ok { resolver := .recursiveMerge } hvalidbs
  obtain ⟨g, hg⟩ := applyBatches_eq_ok { resolver := .recursiveMerge } hvalidcs
  refine ⟨_, _, hf, hg, ?_⟩
  -- the two runs are two orders of the same entries, for each document apart
  have hperm : bs.flatten.Perm cs.flatten := by
    rw [List.perm_ext_iff_of_nodup hbs hcs]
    intro e
    rw [hbE, hcE]
  apply Ordered.eq_of_find?_eq
  intro id
  dsimp only
  rw [find?_applyAll, find?_applyAll]
  have hdocument : OfDocument U id (entriesOf id bs.flatten) := by
    intro e he
    obtain ⟨hmem, hid⟩ := List.mem_filter.1 he
    exact ⟨hE e ((hbE e).1 hmem), of_decide_eq_true hid⟩
  exact replay_eq_of_perm hU hts hwf hdocument (hbs.filter _) (hperm.filter _)

/-! ## What agreement asks for -/

/-- The entries of `U` for one document can be replayed in any order. -/
def Replayable (U : Set Entry) : Prop :=
  ∀ id es fs, OfDocument U id es → es.Nodup → es.Perm fs →
    recursiveMerge.replay none es = recursiveMerge.replay none fs

section Necessity

variable (hU : Replayable U)

include hU

/-- Two entries of one document, replayed in both orders. -/
theorem Replayable.two (ha : a ∈ U) (hb : b ∈ U) (hid : a.documentId = b.documentId) (hne : a ≠ b) :
    recursiveMerge.replay none [a, b] = recursiveMerge.replay none [b, a] := by
  refine hU b.documentId [a, b] [b, a] ?_ ?_ (List.Perm.swap b a [])
  · intro e he
    rcases List.mem_pair.1 he with rfl | rfl
    · exact ⟨ha, hid⟩
    · exact ⟨hb, rfl⟩
  · rw [List.nodup_cons, List.mem_singleton]
    exact ⟨hne, List.nodup_singleton b⟩

/-- Three entries of one document, the first of them in front of the others in either order. -/
theorem Replayable.three (hid : a ∈ U ∧ a.documentId = id ∧ b ∈ U ∧ b.documentId = id ∧ c ∈ U ∧ c.documentId = id)
    (hab : a ≠ b) (hac : a ≠ c) (hbc : b ≠ c) :
    recursiveMerge.replay none [a, b, c] = recursiveMerge.replay none [a, c, b] := by
  obtain ⟨haU, haid, hbU, hbid, hcU, hcid⟩ := hid
  refine hU id [a, b, c] [a, c, b] ?_ ?_ ((List.Perm.swap c b []).cons a)
  · intro e he
    rcases List.mem_cons.1 he with rfl | he
    · exact ⟨haU, haid⟩
    · rcases List.mem_pair.1 he with rfl | rfl
      · exact ⟨hbU, hbid⟩
      · exact ⟨hcU, hcid⟩
  · simp [hab, hac, hbc]

end Necessity

theorem ne_of_timestamp_lt (h : a.timestamp < b.timestamp) : a ≠ b := by
  rintro rfl
  exact Std.lt_irrefl h

/-- Writes that can be replayed in any order are compatible. -/
theorem Replayable.compatible (hU : Replayable U) (id : DocumentId) : Compatible (writesOf U id) where
  two := by
    rintro a ⟨haU, haid, ha⟩ b ⟨hbU, hbid, hb⟩ hab
    have h := hU.two haU hbU (haid.trans hbid.symm) (ne_of_timestamp_lt hab)
    rw [replay_none_cons, replay_none_cons, replay_put_of_lt hb hab,
      replay_put_of_not_lt ha (Std.not_lt.2 (Std.le_of_lt hab)), replay_nil, replay_nil] at h
    exact congrArg Document.content (Option.some.inj h)
  newestFirst := by
    rintro a ⟨haU, haid, ha⟩ b ⟨hbU, hbid, hb⟩ c ⟨hcU, hcid, _⟩ hab hbc
    have hac := Std.lt_trans hab hbc
    have h := hU.three ⟨hcU, hcid, haU, haid, hbU, hbid⟩ (ne_of_timestamp_lt hac).symm
      (ne_of_timestamp_lt hbc).symm (ne_of_timestamp_lt hab)
    have hca := Std.not_lt.2 (Std.le_of_lt hac)
    have hcb := Std.not_lt.2 (Std.le_of_lt hbc)
    rw [replay_none_cons, replay_none_cons, replay_put_of_not_lt ha hca, replay_put_of_not_lt hb hcb,
      replay_put_of_not_lt hb hcb, replay_put_of_not_lt ha hca, replay_nil, replay_nil] at h
    exact congrArg Document.content (Option.some.inj h)
  middleFirst := by
    rintro a ⟨haU, haid, ha⟩ b ⟨hbU, hbid, _⟩ c ⟨hcU, hcid, hc⟩ hab hbc
    have hac := Std.lt_trans hab hbc
    have h := hU.three ⟨hbU, hbid, haU, haid, hcU, hcid⟩ (ne_of_timestamp_lt hab).symm
      (ne_of_timestamp_lt hbc) (ne_of_timestamp_lt hac)
    have hba := Std.not_lt.2 (Std.le_of_lt hab)
    have hca := Std.not_lt.2 (Std.le_of_lt hac)
    rw [replay_none_cons, replay_none_cons, replay_put_of_not_lt ha hba, replay_put_of_lt hc hbc,
      replay_put_of_lt hc hbc, replay_put_of_not_lt ha hca, replay_nil, replay_nil] at h
    exact congrArg Document.content (Option.some.inj h)

/-- Entries that can be replayed in any order are reconcilable. -/
theorem Replayable.reconcilable (hU : Replayable U)
    (hts : ∀ a ∈ U, ∀ b ∈ U, a.timestamp = b.timestamp → a = b) : Reconcilable U where
  compatible := hU.compatible
  deletedFirst := by
    intro d hd p hp hid hdo hpo
    have hne : d ≠ p := by
      rintro rfl
      rw [hdo] at hpo
      cases hpo
    have h := hU.two hd hp hid hne
    rw [replay_none_cons, replay_none_cons] at h
    by_cases hlt : d.timestamp < p.timestamp
    · rw [replay_put_of_lt hpo hlt, replay_delete_of_not_lt hdo (Std.not_lt.2 (Std.le_of_lt hlt)),
        replay_nil, replay_nil] at h
      exact ⟨hlt, congrArg Document.content (Option.some.inj h)⟩
    · -- the deletion counts in one of the orders only
      have hpd : p.timestamp < d.timestamp := by
        rcases Std.lt_trichotomy p.timestamp d.timestamp with hpd | heq | hdp
        · exact hpd
        · exact absurd (hts d hd p hp heq.symm) hne
        · exact absurd hdp hlt
      rw [replay_put_of_not_lt hpo hlt, replay_delete_of_lt hdo hpd, replay_nil, replay_nil] at h
      have hdeleted : false = true := congrArg Document.deleted (Option.some.inj h)
      cases hdeleted
  deletedTwice := by
    intro d hd e he hid hdo heo hlt
    have h := hU.two hd he hid (ne_of_timestamp_lt hlt)
    rw [replay_none_cons, replay_none_cons, replay_delete_of_lt heo hlt,
      replay_delete_of_not_lt hdo (Std.not_lt.2 (Std.le_of_lt hlt)), replay_nil, replay_nil] at h
    exact (congrArg Document.content (Option.some.inj h)).symm

/-- **Agreement where writes are merged.** Let the entries of `U` be valid and well-formed, and let no two of them have
the same timestamp. New stores that merge writes agree after every finite set of entries of `U`, in whatever order
and batches they were given it, exactly if `U` is reconcilable. -/
theorem agree_iff_reconcilable (U : Set Entry) (hvalid : ∀ e ∈ U, entryFault? e = none)
    (hwf : ∀ e ∈ U, e.content.WellFormed)
    (hts : ∀ a ∈ U, ∀ b ∈ U, a.timestamp = b.timestamp → a = b) :
    (∀ E : Finset Entry, (∀ e ∈ E, e ∈ U) → Agree E) ↔ Reconcilable U := by
  constructor
  · intro h
    apply Replayable.reconcilable _ hts
    intro id es fs hes hnodup hperm
    have hagree : Agree es.toFinset := by
      apply h
      intro e he
      exact (hes e (List.mem_toFinset.1 he)).1
    exact hagree.replay_eq (fun e he => hvalid e (hes e he).1) (fun e he => (hes e he).2) hnodup hperm
  · intro h E hE
    exact agree_of_reconcilable h hvalid hwf hts hE

/-- A deletion and three writes that do not contradict each other. -/
theorem agree_reconcilable_four :
    let d : Entry := .delete "notes" "x" ⟨1, 0, "a"⟩
    let p : Entry := .put "notes" "x" (object [("n", ofInt 1)]) ⟨2, 0, "b"⟩
    let q : Entry := .put "notes" "x" (object [("n", ofInt 1), ("s", string "t")]) ⟨3, 0, "a"⟩
    let u : Entry := .put "notes" "x" (object [("o", object [("b", bool true)])]) ⟨3, 7, "a"⟩
    Agree {d, p, q, u} := by
  intro d p q u
  have hmem : ∀ e ∈ ({d, p, q, u} : Finset Entry), e ∈ {e : Entry | e ∈ [d, p, q, u]} := by
    intro e he
    simpa using he
  refine (agree_iff_reconcilable {e | e ∈ [d, p, q, u]} ?_ ?_ ?_).2 ?_ _ hmem
  · show ∀ e ∈ [d, p, q, u], entryFault? e = none
    decide
  · show ∀ e ∈ [d, p, q, u], e.content.WellFormed
    have hn : (ofInt 1).WellFormed := .number _
    have hs : (string "t").WellFormed := .string _
    have hb : (object [("b", bool true)]).WellFormed := .object (by decide) (by simp [WellFormed.bool])
    simp only [List.forall_mem_cons]
    refine ⟨wellFormed_emptyObject, .object (by decide) ?_, .object (by decide) ?_, .object (by decide) ?_, ?_⟩
    · simpa using hn
    · simpa using ⟨hn, hs⟩
    · simpa using hb
    · simp
  · show ∀ a ∈ [d, p, q, u], ∀ b ∈ [d, p, q, u], a.timestamp = b.timestamp → a = b
    decide +kernel
  · have htwo : ∀ a ∈ [d, p, q, u], ∀ b ∈ [d, p, q, u], a.operation = .put → b.operation = .put →
        a.timestamp < b.timestamp → merge true a.content b.content = merge false b.content a.content := by
      decide +kernel
    have hthree : ∀ a ∈ [d, p, q, u], ∀ b ∈ [d, p, q, u], ∀ c ∈ [d, p, q, u], a.operation = .put →
        b.operation = .put → a.timestamp < b.timestamp → b.timestamp < c.timestamp →
        merge false (merge false c.content a.content) b.content
            = merge false (merge false c.content b.content) a.content ∧
          merge true (merge false b.content a.content) c.content
            = merge false (merge true b.content c.content) a.content := by
      decide +kernel
    have hdeleted : ∀ a ∈ [d, p, q, u], ∀ b ∈ [d, p, q, u], a.operation = .delete →
        (b.operation = .put → a.timestamp < b.timestamp ∧ merge true a.content b.content = b.content) ∧
        (b.operation = .delete → a.timestamp < b.timestamp → b.content = emptyObject) := by
      decide +kernel
    refine ⟨fun id => ⟨?_, ?_, ?_⟩, ?_, ?_⟩
    · rintro a ⟨ha, _, hao⟩ b ⟨hb, _, hbo⟩ hab
      exact htwo a ha b hb hao hbo hab
    · rintro a ⟨ha, _, hao⟩ b ⟨hb, _, hbo⟩ c ⟨hc, _, _⟩ hab hbc
      exact (hthree a ha b hb c hc hao hbo hab hbc).1
    · rintro a ⟨ha, _, hao⟩ b ⟨hb, _, hbo⟩ c ⟨hc, _, _⟩ hab hbc
      exact (hthree a ha b hb c hc hao hbo hab hbc).2
    · intro a ha b hb _ hao hbo
      exact (hdeleted a ha b hb hao).1 hbo
    · intro a ha b hb _ hao hbo hab
      exact (hdeleted a ha b hb hao).2 hbo hab

/-- A deletion and an older write on which replicas do not agree, and three writes, the newest of them of another field,
on which they do not agree either. -/
theorem not_agree :
    let d : Entry := .delete "notes" "x" ⟨2, 0, "a"⟩
    let p : Entry := .put "notes" "x" (object [("v", ofInt 1)]) ⟨1, 0, "b"⟩
    let q : Entry := .put "notes" "x" (object [("v", ofInt 2)]) ⟨2, 0, "b"⟩
    let u : Entry := .put "notes" "x" (object [("w", ofInt 1)]) ⟨3, 0, "b"⟩
    ((∀ e ∈ ({d, p} : Finset Entry), entryFault? e = none) ∧
        (∀ a ∈ ({d, p} : Finset Entry), ∀ b ∈ ({d, p} : Finset Entry), a.timestamp = b.timestamp → a = b) ∧
        ¬ Agree {d, p}) ∧
      (∀ e ∈ ({p, q, u} : Finset Entry), entryFault? e = none) ∧
        (∀ a ∈ ({p, q, u} : Finset Entry), ∀ b ∈ ({p, q, u} : Finset Entry),
          a.timestamp = b.timestamp → a = b) ∧
        ¬ Agree {p, q, u} := by
  intro d p q u
  refine ⟨⟨by decide +kernel, by decide +kernel, ?_⟩, by decide +kernel, by decide +kernel, ?_⟩
  · intro h
    have h : Agree [d, p].toFinset := by simpa using h
    have hid : ∀ e ∈ [d, p], e.documentId = ⟨"notes", "x"⟩ := by decide
    have hreplay := h.replay_eq (by decide) hid (by decide +kernel) (List.Perm.swap p d [])
    revert hreplay
    decide +kernel
  · intro h
    have h : Agree [p, q, u].toFinset := by simpa using h
    have hid : ∀ e ∈ [p, q, u], e.documentId = ⟨"notes", "x"⟩ := by decide
    have hreplay := h.replay_eq (by decide) hid (by decide +kernel) ((List.Perm.swap u q []).cons p)
    revert hreplay
    decide +kernel

end Store

end DocMesh
