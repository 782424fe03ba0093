/-
# The newest change to a document

Whatever a store resolves or ignores, each of its documents is stamped by the newest change to it in the log.
Where the newest write wins, the document is also what this change describes: the documents are a view of
the log.

Main statements:

* `Grown.stamped` : in a grown store every document is stamped by its newest logged change;
* `documents_track_log` : which documents a grown store has, under which names and with which stamps;
* `Grown.documents_eq` : where the newest write wins, stores with equal logs have equal documents.
-/
import DocMesh.Proofs.Store.Application

namespace DocMesh

namespace Store

/-! ## The newest entry -/

/-- `e` is the newest change to the document in the log. -/
def IsNewest (log : Ordered Entry.id) (id : DocumentId) (e : Entry) : Prop :=
  e ∈ log.toList ∧ e.documentId = id ∧ ∀ a ∈ log.toList, a.documentId = id → a.timestamp ≤ e.timestamp

variable {r : Resolver} {s t : Store} {log : Ordered Entry.id} {id : DocumentId} {a b e : Entry}

/-- Entries for one document with one timestamp have the same place in the log. -/
theorem id_eq_of_timestamp_eq (hd : a.documentId = b.documentId) (ht : a.timestamp = b.timestamp) :
    a.id = b.id := by
  injection hd with hc hk
  rw [Entry.id, Entry.id, hc, hk, ht]

theorem IsNewest.unique (ha : IsNewest log id a) (hb : IsNewest log id b) : a = b := by
  have ht : a.timestamp = b.timestamp :=
    Std.le_antisymm (hb.2.2 a ha.1 ha.2.1) (ha.2.2 b hb.1 hb.2.1)
  exact Ordered.eq_of_key_eq ha.1 hb.1 (id_eq_of_timestamp_eq (ha.2.1.trans hb.2.1.symm) ht)

/-- Entries for other documents do not count. -/
theorem IsNewest.insertNew_of_ne (h : IsNewest log id a) (hne : e.documentId ≠ id) :
    IsNewest (log.insertNew e) id a := by
  refine ⟨Ordered.mem_insertNew.2 (Or.inl h.1), h.2.1, ?_⟩
  intro b hb hid
  rcases Ordered.mem_insertNew.1 hb with hb | ⟨rfl, _⟩
  · exact h.2.2 b hb hid
  · exact absurd hid hne

/-- An entry that is not newer does not replace the newest one. -/
theorem IsNewest.insertNew_of_le (h : IsNewest log id a) (hle : ¬ a.timestamp < e.timestamp) :
    IsNewest (log.insertNew e) id a := by
  refine ⟨Ordered.mem_insertNew.2 (Or.inl h.1), h.2.1, ?_⟩
  intro b hb hid
  rcases Ordered.mem_insertNew.1 hb with hb | ⟨rfl, _⟩
  · exact h.2.2 b hb hid
  · exact Std.not_lt.1 hle

/-- An entry that is newer than all others for its document becomes the newest one. -/
theorem isNewest_insertNew (h : ∀ b ∈ log.toList, b.documentId = e.documentId → b.timestamp < e.timestamp) :
    IsNewest (log.insertNew e) e.documentId e := by
  -- an entry of the same id would have the same timestamp
  have hnew : log.find? e.id = none := by
    rw [Ordered.find?_eq_none_iff]
    intro b hb hid
    injection hid with ht hc hk
    have hlt := h b hb (by rw [Entry.documentId, Entry.documentId, hc, hk])
    rw [ht] at hlt
    exact Std.lt_irrefl hlt
  refine ⟨Ordered.mem_insertNew.2 (Or.inr ⟨rfl, hnew⟩), rfl, ?_⟩
  intro b hb hid
  rcases Ordered.mem_insertNew.1 hb with hb | ⟨rfl, _⟩
  · exact Std.le_of_lt (h b hb hid)
  · exact Std.le_refl b.timestamp

/-! ## Stamped stores -/

/-- Every document is stamped by the newest change to it in the log; where the newest write wins, it is what this
change describes. There are no logged changes to documents that are not there. -/
structure Stamped (s : Store) : Prop where
  absent : ∀ {id}, s.documents.find? id = none → ∀ e ∈ s.log.toList, e.documentId ≠ id
  present : ∀ {id d}, s.documents.find? id = some d →
    ∃ e, IsNewest s.log id e ∧ d.updatedAt = e.timestamp ∧ (s.resolver = .lastWriteWins → d = .ofEntry e)

theorem stamped_empty (r : Resolver) : Stamped { resolver := r } where
  absent _ _ he := nomatch he
  present h := nomatch h

/-- An entry for a document that is not there makes a stamped one. -/
theorem Stamped.present_applyEntry_none (h : Stamped s) (hf : s.documents.find? e.documentId = none) :
    ∃ a, IsNewest (s.applyEntry e).log e.documentId a ∧ (Document.ofEntry e).updatedAt = a.timestamp ∧
      (s.resolver = .lastWriteWins → Document.ofEntry e = .ofEntry a) := by
  refine ⟨e, ?_, rfl, fun _ => rfl⟩
  rw [log_applyEntry]
  apply isNewest_insertNew
  intro b hb hid
  exact absurd hid (h.absent hf b hb)

/-- An entry for a stamped document leaves it stamped. -/
theorem Stamped.present_applyEntry_some {d d' : Document} (h : Stamped s)
    (hf : s.documents.find? e.documentId = some d)
    (hd : (s.resolver.resolve (some d) e).after (some d) = some d') :
    ∃ a, IsNewest (s.applyEntry e).log e.documentId a ∧ d'.updatedAt = a.timestamp ∧
      (s.resolver = .lastWriteWins → d' = .ofEntry a) := by
  obtain ⟨a, ha, hstamp, hview⟩ := h.present hf
  obtain ⟨d'', hd'', hu⟩ := Resolver.updatedAt_after s.resolver d e
  rw [hd] at hd''
  cases hd''
  rw [log_applyEntry]
  -- the entry is the newest one now, or the newest one stays
  by_cases hlt : d.updatedAt < e.timestamp
  · refine ⟨e, ?_, by rw [hu, if_pos hlt], ?_⟩
    · apply isNewest_insertNew
      intro b hb hid
      rw [hstamp] at hlt
      exact Std.lt_of_le_of_lt (ha.2.2 b hb hid) hlt
    · intro hr
      rw [hr, Resolver.after_lastWriteWins, if_pos hlt] at hd
      exact (Option.some.inj hd).symm
  · refine ⟨a, ?_, by rw [hu, if_neg hlt, hstamp], ?_⟩
    · apply ha.insertNew_of_le
      rwa [← hstamp]
    · intro hr
      rw [hr, Resolver.after_lastWriteWins, if_neg hlt] at hd
      rw [← Option.some.inj hd, hview hr]

/-- Entries keep a store stamped. -/
theorem Stamped.applyEntry (h : Stamped s) (e : Entry) : Stamped (s.applyEntry e) where
  absent {id} hf a ha hid := by
    rw [find?_applyEntry] at hf
    by_cases heq : e.documentId = id
    · rw [if_pos heq] at hf
      rcases hd : s.documents.find? id with _ | d
      · rw [hd, Resolver.after_none] at hf
        cases hf
      · obtain ⟨d', hd', _⟩ := Resolver.updatedAt_after s.resolver d e
        rw [hd, hd'] at hf
        cases hf
    · rw [if_neg heq] at hf
      rw [log_applyEntry] at ha
      rcases Ordered.mem_insertNew.1 ha with ha | ⟨rfl, _⟩
      · exact h.absent hf a ha hid
      · exact heq hid
  present {id d'} hf := by
    rw [find?_applyEntry] at hf
    rw [resolver_applyEntry]
    by_cases heq : e.documentId = id
    · subst heq
      rw [if_pos rfl] at hf
      rcases hd : s.documents.find? e.documentId with _ | d
      · rw [hd, Resolver.after_none] at hf
        cases hf
        exact h.present_applyEntry_none hd
      · rw [hd] at hf
        exact h.present_applyEntry_some hd hf
    · rw [if_neg heq] at hf
      obtain ⟨a, ha, hstamp, hview⟩ := h.present hf
      rw [log_applyEntry]
      exact ⟨a, ha.insertNew_of_ne heq, hstamp, hview⟩

theorem Stamped.applyAll (h : Stamped s) (es : List Entry) : Stamped (s.applyAll es) := by
  induction es generalizing s with
  | nil => exact h
  | cons e es ih => exact ih (h.applyEntry e)

/-- In a grown store every document is stamped by the newest logged change to it. -/
theorem Grown.stamped (h : Grown r s) : Stamped s := by
  refine Grown.induction (stamped_empty r) ?_ ?_ h
  · intro s f hs
    exact ⟨hs.absent, hs.present⟩
  · intro s e _ _ hs
    exact hs.applyEntry e

/-- **Documents and the newest changes to them.** A grown store has a document exactly where its log has an entry, the
document goes by the name that it is found under, and its stamp is the greatest timestamp of these entries, be they
applied or ignored. -/
theorem documents_track_log (h : Grown r s) (collection key : String) :
    ((s.document? collection key).isSome ↔ ∃ e ∈ s.log.toList, e.collection = collection ∧ e.key = key) ∧
      ∀ d, s.document? collection key = some d → d.collection = collection ∧ d.key = key ∧
        (∃ e ∈ s.log.toList, e.collection = collection ∧ e.key = key ∧ e.timestamp = d.updatedAt) ∧
        ∀ e ∈ s.log.toList, e.collection = collection → e.key = key → e.timestamp ≤ d.updatedAt := by
  have hid : ∀ e : Entry, e.documentId = ⟨collection, key⟩ ↔ e.collection = collection ∧ e.key = key := by
    intro e
    rw [Entry.documentId, DocumentId.mk.injEq]
  have hstamped := h.stamped
  constructor
  · rcases hf : s.document? collection key with _ | d
    · simp only [Option.isSome_none, Bool.false_eq_true, false_iff]
      rintro ⟨e, he, hname⟩
      exact hstamped.absent hf e he ((hid e).2 hname)
    · simp only [Option.isSome_some, true_iff]
      obtain ⟨e, he, -⟩ := hstamped.present hf
      exact ⟨e, he.1, (hid e).1 he.2.1⟩
  · intro d hd
    obtain ⟨e, ⟨hmem, hname, hmax⟩, hstamp, -⟩ := hstamped.present hd
    have hdid : d.id = ⟨collection, key⟩ := id_of_find? hd
    injection hdid with hcollection hkey
    obtain ⟨hc, hk⟩ := (hid e).1 hname
    refine ⟨hcollection, hkey, ⟨e, hmem, hc, hk, hstamp.symm⟩, ?_⟩
    intro a ha hac hak
    rw [hstamp]
    exact hmax a ha ((hid a).2 ⟨hac, hak⟩)

/-- A write, an older deletion that is ignored, an even older write that is merged, and the first write again. -/
theorem documents_track_log_merged :
    let p : Entry := .put "notes" "x" (.ofMembers [("v", .ofInt 1)]) ⟨3, 0, "a"⟩
    let d : Entry := .delete "notes" "x" ⟨2, 0, "b"⟩
    let q : Entry := .put "notes" "x" (.ofMembers [("w", .ofInt 2)]) ⟨1, 0, "b"⟩
    ∃ s, Grown .recursiveMerge s ∧ s.log.toList = [q, d, p] ∧
      ((s.document? "notes" "x").isSome ↔ ∃ e ∈ s.log.toList, e.collection = "notes" ∧ e.key = "x") ∧
      ∀ a, s.document? "notes" "x" = some a → a.collection = "notes" ∧ a.key = "x" ∧
        (∃ e ∈ s.log.toList, e.collection = "notes" ∧ e.key = "x" ∧ e.timestamp = a.updatedAt) ∧
        ∀ e ∈ s.log.toList, e.collection = "notes" → e.key = "x" → e.timestamp ≤ a.updatedAt := by
  intro p d q
  have hvalid : ∀ e ∈ [p, d, q, p], entryFault? e = none := by decide
  have hgrown := (Grown.empty (r := .recursiveMerge)).batch (applyBatch_nil_of_valid _ hvalid)
  exact ⟨_, hgrown, by decide +kernel, documents_track_log hgrown "notes" "x"⟩

/-! ## Documents as a view of the log -/

/-- Where the newest write wins, the document is what the newest logged change to it describes. -/
theorem Stamped.find?_of_isNewest (h : Stamped s) (hr : s.resolver = .lastWriteWins)
    (he : IsNewest s.log id e) : s.documents.find? id = some (.ofEntry e) := by
  rcases hf : s.documents.find? id with _ | d
  · exact absurd he.2.1 (h.absent hf e he.1)
  · obtain ⟨a, ha, _, hview⟩ := h.present hf
    rw [hview hr, ha.unique he]

/-- Among the logged changes to a document one is the newest. -/
theorem Stamped.exists_isNewest (h : Stamped s) (ha : a ∈ s.log.toList) :
    ∃ e, IsNewest s.log a.documentId e := by
  rcases hf : s.documents.find? a.documentId with _ | d
  · exact absurd rfl (h.absent hf a ha)
  · obtain ⟨e, he, _⟩ := h.present hf
    exact ⟨e, he⟩

/-- Where the newest write wins, the log determines the documents. -/
theorem Stamped.documents_eq (hs : Stamped s) (ht : Stamped t) (hsr : s.resolver = .lastWriteWins)
    (htr : t.resolver = .lastWriteWins) (hlog : s.log = t.log) : s.documents = t.documents := by
  apply Ordered.eq_of_find?_eq
  intro id
  rcases hf : s.documents.find? id with _ | d
  · rcases hg : t.documents.find? id with _ | d'
    · rfl
    · obtain ⟨e, he, _⟩ := ht.present hg
      rw [← hlog] at he
      exact absurd he.2.1 (hs.absent hf e he.1)
  · obtain ⟨e, he, _, hview⟩ := hs.present hf
    rw [hlog] at he
    rw [hview hsr, ht.find?_of_isNewest htr he]

/-- Where the newest write wins, grown stores with equal logs have equal documents. -/
theorem Grown.documents_eq (hs : Grown .lastWriteWins s) (ht : Grown .lastWriteWins t)
    (hlog : s.log = t.log) : s.documents = t.documents :=
  hs.stamped.documents_eq ht.stamped hs.resolver_eq ht.resolver_eq hlog

end Store

end DocMesh
