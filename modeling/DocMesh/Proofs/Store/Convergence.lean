/-
# Convergence where the newest write wins

Replicas that have been given the same entries agree, in whatever order, how often and in what batches the
entries came. This holds because the log of a store is the set of its entries, and the documents are a view
of the log.

Main statements:

* `applyBatches_eq_ok` : batches of valid entries do what their entries do one by one;
* `applyBatches_converge` : stores that were given the same entries have the same documents and logs.
-/
import DocMesh.Proofs.Store.Newest
import Mathlib.Data.Finset.Basic

namespace DocMesh

namespace Store

variable {r : Resolver} {s s' : Store} {e : Entry} {bs : List (List Entry)}

/-! ## Runs of batches -/

/-- Applies batches without documents one after the other; an invalid one ends the run. -/
def applyBatches (s : Store) : List (List Entry) → Except StoreError Store
  | [] => .ok s
  | es :: bs =>
    match s.applyBatch [] es with
    | .ok (s', _) => applyBatches s' bs
    | .error fault => .error fault

theorem Grown.applyBatches (hs : Grown r s) (h : s.applyBatches bs = .ok s') : Grown r s' := by
  induction bs generalizing s with
  | nil =>
    cases h
    exact hs
  | cons es bs ih =>
    rw [Store.applyBatches] at h
    split at h
    · rename_i hes
      exact ih (hs.batch hes) h
    · cases h

/-- Batches of valid entries do what their entries do one by one. -/
theorem applyBatches_eq_ok (s : Store) (hvalid : ∀ e ∈ bs.flatten, entryFault? e = none) :
    ∃ f, s.applyBatches bs = .ok { s.applyAll bs.flatten with feed := f } := by
  induction bs generalizing s with
  | nil => exact ⟨s.feed, rfl⟩
  | cons es bs ih =>
    rw [List.flatten_cons] at hvalid ⊢
    have hes : ∀ e ∈ es, entryFault? e = none := fun e he => hvalid e (List.mem_append_left _ he)
    obtain ⟨f, hf⟩ := ih { s.applyAll es with feed := s.feed.publish (es.map (·.collection)) }
      fun e he => hvalid e (List.mem_append_right _ he)
    refine ⟨f, ?_⟩
    rw [applyBatches, applyBatch_nil_of_valid s hes, applyAll_append]
    dsimp only
    rw [hf, applyAll_feed]

/-! ## Convergence -/

/-- The log of a new store that has been given all of `E` and nothing else is `E`. -/
theorem mem_log_applyAll_empty {E : Finset Entry} (r : Resolver)
    (hsame : ∀ a ∈ E, ∀ b ∈ E, a.id = b.id → a = b) {es : List Entry} (hes : ∀ e, e ∈ es ↔ e ∈ E) :
    e ∈ (({ resolver := r } : Store).applyAll es).log.toList ↔ e ∈ E := by
  rw [mem_log_applyAll]
  · rw [← hes]
    constructor
    · rintro (h | h)
      · cases h
      · exact h
    · exact Or.inr
  · intro a ha b hb
    exact hsame a ((hes a).1 ha) b ((hes b).1 hb)
  · intro a _ b hb
    cases hb

/-- **Convergence.** Let the entries of the finite set `E` be valid, and let no two of them share timestamp,
collection and key. Two new stores where the newest write wins, which are given all of `E` and nothing else in
batches of any kind, accept the batches and end with the same documents and the same log. Every document that
`E` is about is what the entry for it with the greatest timestamp describes. -/
theorem applyBatches_converge (E : Finset Entry) (hvalid : ∀ e ∈ E, entryFault? e = none)
    (hsame : ∀ a ∈ E, ∀ b ∈ E,
      a.timestamp = b.timestamp → a.collection = b.collection → a.key = b.key → a = b)
    (bs cs : List (List Entry)) (hbs : ∀ e, e ∈ bs.flatten ↔ e ∈ E)
    (hcs : ∀ e, e ∈ cs.flatten ↔ e ∈ E) :
    ∃ s t, applyBatches { resolver := .lastWriteWins } bs = .ok s ∧
      applyBatches { resolver := .lastWriteWins } cs = .ok t ∧
      s.documents = t.documents ∧ s.log = t.log ∧
      ∀ a ∈ E, ∃ e ∈ E, e.collection = a.collection ∧ e.key = a.key ∧
        (∀ b ∈ E, b.collection = a.collection → b.key = a.key → b.timestamp ≤ e.timestamp) ∧
        s.document? a.collection a.key = some (.ofEntry e) := by
  have hid : ∀ a ∈ E, ∀ b ∈ E, a.id = b.id → a = b := by
    intro a ha b hb h
    injection h with ht hc hk
    exact hsame a ha b hb ht hc hk
  obtain ⟨f, hf⟩ := applyBatches_eq_ok { resolver := .lastWriteWins } fun e he => hvalid e ((hbs e).1 he)
  obtain ⟨g, hg⟩ := applyBatches_eq_ok { resolver := .lastWriteWins } fun e he => hvalid e ((hcs e).1 he)
  refine ⟨_, _, hf, hg, ?_⟩
  have hgrown := Grown.empty.applyBatches hf
  have hlog := fun e => mem_log_applyAll_empty (e := e) .lastWriteWins hid hbs
  have hlogs : (({ resolver := .lastWriteWins } : Store).applyAll bs.flatten).log
      = (({ resolver := .lastWriteWins } : Store).applyAll cs.flatten).log := by
    apply Ordered.eq_of_mem_iff
    intro e
    rw [hlog, mem_log_applyAll_empty .lastWriteWins hid hcs]
  refine ⟨hgrown.documents_eq (Grown.empty.applyBatches hg) hlogs, hlogs, ?_⟩
  intro a ha
  obtain ⟨e, he⟩ := hgrown.stamped.exists_isNewest ((hlog a).2 ha)
  have hd := hgrown.stamped.find?_of_isNewest hgrown.resolver_eq he
  obtain ⟨hmem, hdoc, hmax⟩ := he
  injection hdoc with hc hk
  refine ⟨e, (hlog e).1 hmem, hc, hk, ?_, hd⟩
  intro b hb hbc hbk
  apply hmax b ((hlog b).2 hb)
  rw [Entry.documentId, hbc, hbk]
  rfl

/-- Two writes and a deletion, given one by one and, with a repetition, in another order. -/
theorem applyBatches_converge_three :
    let a : Entry := .put "notes" "x" (.ofInt 1) ⟨5, 0, "a"⟩
    let b : Entry := .delete "notes" "x" ⟨5, 0, "b"⟩
    let c : Entry := .put "notes" "y" .null ⟨3, 7, "a"⟩
    ∃ s t, applyBatches { resolver := .lastWriteWins } [[a], [b], [c]] = .ok s ∧
      applyBatches { resolver := .lastWriteWins } [[b, c], [], [b, a]] = .ok t ∧
      s.documents = t.documents ∧ s.log = t.log ∧
      ∀ d ∈ ({a, b, c} : Finset Entry), ∃ e ∈ ({a, b, c} : Finset Entry),
        e.collection = d.collection ∧ e.key = d.key ∧
        (∀ f ∈ ({a, b, c} : Finset Entry), f.collection = d.collection → f.key = d.key →
          f.timestamp ≤ e.timestamp) ∧
        s.document? d.collection d.key = some (.ofEntry e) := by
  intro a b c
  apply applyBatches_converge {a, b, c} (by decide) (by decide)
  · intro e
    simp
  · intro e
    simp
    tauto

end Store

end DocMesh
