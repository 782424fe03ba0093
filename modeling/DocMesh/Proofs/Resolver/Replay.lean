/-
# Replaying entries of one document

What the merging resolver makes of the entries of one document, one after the other. Where the entries are
reconcilable, their order makes no difference, and what comes of them can be said without one: the newest
write with the older ones merged into it, or what the newest deletion leaves if there are no writes.

Main statements:

* `View.step` : one more entry, be it newer or older than what was received before;
* `exists_view` : what comes of entries in any order;
* `replay_eq_of_perm` : two orders of the same entries make the same document.
-/
import DocMesh.Proofs.Resolver.Decision
import DocMesh.Proofs.Resolver.Writes

namespace DocMesh

namespace Resolver

open Json (merge)

variable {U : Set Entry} {id : DocumentId} {es fs : List Entry} {a e : Entry} {d d' : Document}

/-! ## Reconcilable entries -/

/-- The writes of one document among the entries. -/
def writesOf (U : Set Entry) (id : DocumentId) : Set Entry :=
  {e | e ∈ U ∧ e.documentId = id ∧ e.operation = .put}

/-- Writes and deletions whose order makes no difference to the merging resolver. -/
structure Reconcilable (U : Set Entry) : Prop where
  /-- The writes of each document are compatible. -/
  compatible : ∀ id, Compatible (writesOf U id)
  /-- A document is deleted before it is written, and a write replaces what the deletion has left. -/
  deletedFirst : ∀ d ∈ U, ∀ p ∈ U, d.documentId = p.documentId → d.operation = .delete → p.operation = .put →
    d.timestamp < p.timestamp ∧ merge true d.content p.content = p.content
  /-- Of two deletions of a document the newer one leaves an empty object. -/
  deletedTwice : ∀ d ∈ U, ∀ e ∈ U, d.documentId = e.documentId → d.operation = .delete →
    e.operation = .delete → d.timestamp < e.timestamp → e.content = Json.emptyObject

/-! ## Replaying -/

/-- The document after the given entries for it. -/
def replay (r : Resolver) (d : Option Document) (es : List Entry) : Option Document :=
  es.foldl (fun d e => (r.resolve d e).after d) d

@[simp] theorem replay_nil (r : Resolver) (d : Option Document) : r.replay d [] = d := rfl

@[simp] theorem replay_cons (r : Resolver) (d : Option Document) (e : Entry) (es : List Entry) :
    r.replay d (e :: es) = r.replay ((r.resolve d e).after d) es := rfl

/-- A write is merged. -/
theorem after_put (d : Document) (h : e.operation = .put) :
    (recursiveMerge.resolve (some d) e).after (some d) = some (mergedDocument d e) := by
  rw [resolve_recursiveMerge_put d h]
  rfl

/-- A newer deletion leaves a tombstone. -/
theorem after_delete_of_lt (h : e.operation = .delete) (hlt : d.updatedAt < e.timestamp) :
    (recursiveMerge.resolve (some d) e).after (some d)
      = some (.tombstone e.collection e.key e.timestamp) := by
  rw [resolve_recursiveMerge_delete d h, if_pos hlt]
  rfl

/-- An older deletion changes nothing. -/
theorem after_delete_of_not_lt (h : e.operation = .delete) (hlt : ¬ d.updatedAt < e.timestamp) :
    (recursiveMerge.resolve (some d) e).after (some d) = some d := by
  rw [resolve_recursiveMerge_delete d h, if_neg hlt]
  rfl

/-- A newer write. -/
theorem mergedDocument_of_lt (h : d.updatedAt < e.timestamp) :
    mergedDocument d e
      = ⟨d.collection, d.key, merge true d.content e.content, e.timestamp, false⟩ := by
  have hstamp : max d.updatedAt e.timestamp = e.timestamp :=
    (updatedAt_mergedDocument d e).trans (if_pos h)
  rw [mergedDocument, hstamp, decide_eq_true h]

/-- An older write. -/
theorem mergedDocument_of_not_lt (h : ¬ d.updatedAt < e.timestamp) :
    mergedDocument d e
      = ⟨d.collection, d.key, merge false d.content e.content, d.updatedAt, false⟩ := by
  have hstamp : max d.updatedAt e.timestamp = d.updatedAt :=
    (updatedAt_mergedDocument d e).trans (if_neg h)
  rw [mergedDocument, hstamp, decide_eq_false h]

/-- The first entry describes the document. -/
theorem replay_none_cons (r : Resolver) (e : Entry) (es : List Entry) :
    r.replay none (e :: es)
      = r.replay (some ⟨e.collection, e.key, e.content, e.timestamp, e.operation = .delete⟩) es := by
  rw [replay_cons, after_none, Document.ofEntry]

/-- A newer write, and what follows it. -/
theorem replay_put_of_lt {collection key : String} {v : Json} {t : Timestamp} {deleted : Bool}
    (h : e.operation = .put) (hlt : t < e.timestamp) (es : List Entry) :
    recursiveMerge.replay (some ⟨collection, key, v, t, deleted⟩) (e :: es)
      = recursiveMerge.replay (some ⟨collection, key, merge true v e.content, e.timestamp, false⟩) es := by
  rw [replay_cons, after_put ⟨collection, key, v, t, deleted⟩ h,
    mergedDocument_of_lt (d := ⟨collection, key, v, t, deleted⟩) hlt]

/-- An older write, and what follows it. -/
theorem replay_put_of_not_lt {collection key : String} {v : Json} {t : Timestamp} {deleted : Bool}
    (h : e.operation = .put) (hlt : ¬ t < e.timestamp) (es : List Entry) :
    recursiveMerge.replay (some ⟨collection, key, v, t, deleted⟩) (e :: es)
      = recursiveMerge.replay (some ⟨collection, key, merge false v e.content, t, false⟩) es := by
  rw [replay_cons, after_put ⟨collection, key, v, t, deleted⟩ h,
    mergedDocument_of_not_lt (d := ⟨collection, key, v, t, deleted⟩) hlt]

/-- A newer deletion, and what follows it. -/
theorem replay_delete_of_lt {collection key : String} {v : Json} {t : Timestamp} {deleted : Bool}
    (h : e.operation = .delete) (hlt : t < e.timestamp) (es : List Entry) :
    recursiveMerge.replay (some ⟨collection, key, v, t, deleted⟩) (e :: es)
      = recursiveMerge.replay (some ⟨e.collection, e.key, Json.emptyObject, e.timestamp, true⟩) es := by
  rw [replay_cons, after_delete_of_lt (d := ⟨collection, key, v, t, deleted⟩) h hlt, Document.tombstone]

/-- An older deletion, and what follows it. -/
theorem replay_delete_of_not_lt {collection key : String} {v : Json} {t : Timestamp} {deleted : Bool}
    (h : e.operation = .delete) (hlt : ¬ t < e.timestamp) (es : List Entry) :
    recursiveMerge.replay (some ⟨collection, key, v, t, deleted⟩) (e :: es)
      = recursiveMerge.replay (some ⟨collection, key, v, t, deleted⟩) es := by
  rw [replay_cons, after_delete_of_not_lt (d := ⟨collection, key, v, t, deleted⟩) h hlt]

/-! ## What comes of entries -/

/-- The writes among the entries. -/
def puts (es : List Entry) : List Entry := es.filter (·.operation = .put)

theorem mem_puts : a ∈ puts es ↔ a ∈ es ∧ a.operation = .put := by
  rw [puts, List.mem_filter, decide_eq_true_iff]

theorem puts_append (es fs : List Entry) : puts (es ++ fs) = puts es ++ puts fs := by
  rw [puts, List.filter_append, puts, puts]

theorem puts_singleton_of_put (h : e.operation = .put) : puts [e] = [e] := by
  rw [puts, List.filter_singleton, decide_eq_true h]
  rfl

theorem puts_of_delete (h : ∀ a ∈ es, a.operation = .delete) : puts es = [] := by
  rw [puts, List.filter_eq_nil_iff]
  intro a ha
  rw [h a ha]
  decide

/-- What the entries of the document make of it, if their order makes no difference. -/
inductive View (id : DocumentId) (es : List Entry) : Document → Prop where
  /-- There are deletions only. -/
  | deleted {c : Entry} (hc : c ∈ es) (hall : ∀ a ∈ es, a.operation = .delete ∧ a.timestamp ≤ c.timestamp) :
    View id es ⟨id.collection, id.key, c.content, c.timestamp, true⟩
  /-- There are writes. -/
  | written {c : Entry} {older : List Entry} (hperm : (puts es).Perm (c :: older))
    (holder : ∀ a ∈ older, a.timestamp < c.timestamp) :
    View id es ⟨id.collection, id.key, mergeOlder c.content older, c.timestamp, false⟩

/-- The entries are of one document and among those of `U`. -/
def OfDocument (U : Set Entry) (id : DocumentId) (es : List Entry) : Prop :=
  ∀ a ∈ es, a ∈ U ∧ a.documentId = id

/-- Writes that are a rearrangement of those among the entries are writes of the document. -/
theorem OfDocument.mem_writesOf (h : OfDocument U id es) (hperm : (puts es).Perm fs) (ha : a ∈ fs) :
    a ∈ es ∧ a ∈ writesOf U id := by
  obtain ⟨hmem, hput⟩ := mem_puts.1 (hperm.mem_iff.2 ha)
  exact ⟨hmem, (h a hmem).1, (h a hmem).2, hput⟩

theorem view_singleton (hid : e.documentId = id) : View id [e] (.ofEntry e) := by
  subst hid
  rcases ho : e.operation with _ | _
  · have hputs : (puts [e]).Perm [e] := by
      rw [puts_singleton_of_put ho]
    have hview : View e.documentId [e] ⟨e.collection, e.key, e.content, e.timestamp, false⟩ :=
      View.written hputs fun a ha => nomatch ha
    rwa [Document.ofEntry, ho]
  · have hall : ∀ a ∈ [e], a.operation = .delete ∧ a.timestamp ≤ e.timestamp := by
      intro a ha
      rw [List.mem_singleton.1 ha]
      exact ⟨ho, Std.le_refl e.timestamp⟩
    have hview : View e.documentId [e] ⟨e.collection, e.key, e.content, e.timestamp, true⟩ :=
      View.deleted List.mem_cons_self hall
    rwa [Document.ofEntry, ho]

/-- A newer write takes the place of the newest one. -/
theorem view_newer {c : Entry} {older : List Entry} (ho : e.operation = .put)
    (hperm : (puts es).Perm (c :: older)) (holder : ∀ a ∈ older, a.timestamp < c.timestamp)
    (hlt : c.timestamp < e.timestamp) :
    View id (es ++ [e]) ⟨id.collection, id.key, mergeOlder e.content (c :: older), e.timestamp, false⟩ := by
  refine View.written ?_ ?_
  · rw [puts_append, puts_singleton_of_put ho]
    exact List.perm_append_comm.trans (hperm.cons e)
  · intro a ha
    rcases List.mem_cons.1 ha with rfl | ha
    · exact hlt
    · exact Std.lt_trans (holder a ha) hlt

/-- An older write is one more among the older ones. -/
theorem view_older {c : Entry} {older : List Entry} (ho : e.operation = .put)
    (hperm : (puts es).Perm (c :: older)) (holder : ∀ a ∈ older, a.timestamp < c.timestamp)
    (hlt : e.timestamp < c.timestamp) :
    View id (es ++ [e])
      ⟨id.collection, id.key, mergeOlder c.content (older ++ [e]), c.timestamp, false⟩ := by
  refine View.written ?_ ?_
  · rw [puts_append, puts_singleton_of_put ho, ← List.cons_append]
    exact hperm.append_right [e]
  · intro a ha
    rcases List.mem_append.1 ha with ha | ha
    · exact holder a ha
    · rw [List.mem_singleton.1 ha]
      exact hlt

/-- The newest of some writes is determined. -/
theorem newest_eq {c c' : Entry} {older older' : List Entry} (h : (c :: older).Perm (c' :: older'))
    (holder : ∀ a ∈ older, a.timestamp < c.timestamp) (holder' : ∀ a ∈ older', a.timestamp < c'.timestamp) :
    c = c' := by
  rcases List.mem_cons.1 (h.mem_iff.1 List.mem_cons_self) with heq | hmem
  · exact heq
  · rcases List.mem_cons.1 (h.mem_iff.2 List.mem_cons_self) with heq | hmem'
    · exact heq.symm
    · -- each of the two would have to be older than the other
      exact absurd (Std.lt_trans (holder' c hmem) (holder c' hmem')) Std.lt_irrefl

section Steps

variable (hU : Reconcilable U) (hts : ∀ a ∈ U, ∀ b ∈ U, a.timestamp = b.timestamp → a = b)
  (hwf : ∀ a ∈ U, a.content.WellFormed)

include hU

/-- One more entry where there were deletions only. -/
theorem View.step_deleted {c : Entry} (hes : OfDocument U id (es ++ [e])) (hc : c ∈ es)
    (hall : ∀ a ∈ es, a.operation = .delete ∧ a.timestamp ≤ c.timestamp) :
    let d : Document := ⟨id.collection, id.key, c.content, c.timestamp, true⟩
    ∃ d', (recursiveMerge.resolve (some d) e).after (some d) = some d' ∧ View id (es ++ [e]) d' := by
  intro d
  obtain ⟨hcU, hcid⟩ := hes c (List.mem_append_left _ hc)
  obtain ⟨heU, heid⟩ := hes e (List.mem_append_right _ List.mem_cons_self)
  have hsame : c.documentId = e.documentId := hcid.trans heid.symm
  rcases ho : e.operation with _ | _
  · -- the first write replaces the tombstone
    obtain ⟨hlt, hmerge⟩ := hU.deletedFirst c hcU e heU hsame (hall c hc).1 ho
    refine ⟨mergedDocument d e, after_put d ho, ?_⟩
    have hd : mergedDocument d e = ⟨id.collection, id.key, e.content, e.timestamp, false⟩ := by
      rw [mergedDocument_of_lt (d := d) hlt, hmerge]
    have hputs : (puts (es ++ [e])).Perm [e] := by
      rw [puts_append, puts_of_delete fun a ha => (hall a ha).1, puts_singleton_of_put ho, List.nil_append]
    rw [hd]
    exact View.written hputs fun a ha => nomatch ha
  · -- of two deletions the newer one is what is left
    by_cases hlt : c.timestamp < e.timestamp
    · refine ⟨_, after_delete_of_lt (d := d) ho hlt, ?_⟩
      have hempty := hU.deletedTwice c hcU e heU hsame (hall c hc).1 ho hlt
      subst heid
      have hview : View e.documentId (es ++ [e]) ⟨e.collection, e.key, e.content, e.timestamp, true⟩ := by
        refine View.deleted (List.mem_append_right _ List.mem_cons_self) ?_
        intro a ha
        rcases List.mem_append.1 ha with ha | ha
        · exact ⟨(hall a ha).1, Std.le_trans (hall a ha).2 (Std.le_of_lt hlt)⟩
        · rw [List.mem_singleton.1 ha]
          exact ⟨ho, Std.le_refl e.timestamp⟩
      rwa [hempty] at hview
    · refine ⟨d, after_delete_of_not_lt (d := d) ho hlt, View.deleted (List.mem_append_left _ hc) ?_⟩
      intro a ha
      rcases List.mem_append.1 ha with ha | ha
      · exact hall a ha
      · rw [List.mem_singleton.1 ha]
        exact ⟨ho, Std.not_lt.1 hlt⟩

include hts hwf

/-- One more entry where there were writes. -/
theorem View.step_written {c : Entry} {older : List Entry} (hes : OfDocument U id (es ++ [e])) (hnew : e ∉ es)
    (hperm : (puts es).Perm (c :: older)) (holder : ∀ a ∈ older, a.timestamp < c.timestamp) :
    let d : Document := ⟨id.collection, id.key, mergeOlder c.content older, c.timestamp, false⟩
    ∃ d', (recursiveMerge.resolve (some d) e).after (some d) = some d' ∧ View id (es ++ [e]) d' := by
  intro d
  have hprior : OfDocument U id es := fun a ha => hes a (List.mem_append_left _ ha)
  obtain ⟨hces, hcW⟩ := hprior.mem_writesOf hperm List.mem_cons_self
  obtain ⟨heU, heid⟩ := hes e (List.mem_append_right _ List.mem_cons_self)
  have hsame : e.documentId = c.documentId := heid.trans hcW.2.1.symm
  rcases ho : e.operation with _ | _
  · refine ⟨mergedDocument d e, after_put d ho, ?_⟩
    by_cases hlt : c.timestamp < e.timestamp
    · have hnewer : merge true (mergeOlder c.content older) e.content = mergeOlder e.content (c :: older) := by
        refine mergeOlder_newer (hU.compatible id) ?_ ?_ hcW ?_ ⟨heU, heid, ho⟩ hlt
        · intro a ha b hb
          exact hts a ha.1 b hb.1
        · intro a ha
          exact hwf a ha.1
        · intro a ha
          exact ⟨(hprior.mem_writesOf hperm (List.mem_cons_of_mem c ha)).2, holder a ha⟩
      rw [mergedDocument_of_lt (d := d) hlt, hnewer]
      exact view_newer ho hperm holder hlt
    · have hlater : merge false (mergeOlder c.content older) e.content = mergeOlder c.content (older ++ [e]) :=
        (mergeOlder_append c.content older [e]).symm
      -- the timestamps differ, since the entries do
      have hec : e.timestamp < c.timestamp := by
        rcases Std.lt_trichotomy e.timestamp c.timestamp with hec | hec | hec
        · exact hec
        · rw [hts e heU c hcW.1 hec] at hnew
          exact absurd hces hnew
        · exact absurd hec hlt
      rw [mergedDocument_of_not_lt (d := d) hlt, hlater]
      exact view_older ho hperm holder hec
  · -- deletions are older than writes
    have hlt := (hU.deletedFirst e heU c hcW.1 hsame ho hcW.2.2).1
    refine ⟨d, after_delete_of_not_lt (d := d) ho (Std.not_lt.2 (Std.le_of_lt hlt)), ?_⟩
    refine View.written ?_ holder
    have hputs : puts [e] = [] := by
      apply puts_of_delete
      intro a ha
      rw [List.mem_singleton.1 ha, ho]
    rw [puts_append, hputs, List.append_nil]
    exact hperm

/-- One more entry, be it newer or older than what was received before. -/
theorem View.step (hes : OfDocument U id (es ++ [e])) (hnew : e ∉ es) (h : View id es d) :
    ∃ d', (recursiveMerge.resolve (some d) e).after (some d) = some d' ∧ View id (es ++ [e]) d' := by
  cases h with
  | deleted hc hall => exact View.step_deleted hU hes hc hall
  | written hperm holder => exact View.step_written hU hts hwf hes hnew hperm holder

/-- More entries, one after the other. -/
theorem View.replay (hes : OfDocument U id (es ++ fs)) (hnodup : (es ++ fs).Nodup) (h : View id es d) :
    ∃ d', recursiveMerge.replay (some d) fs = some d' ∧ View id (es ++ fs) d' := by
  induction fs generalizing es d with
  | nil =>
    rw [List.append_nil]
    exact ⟨d, rfl, h⟩
  | cons e fs ih =>
    rw [List.append_cons] at hes hnodup ⊢
    have hnew : e ∉ es := by
      intro hmem
      have hdisjoint := (List.nodup_append.1 (List.nodup_append.1 hnodup).1).2.2
      exact hdisjoint e hmem e List.mem_cons_self rfl
    obtain ⟨d', hd', hview⟩ := h.step hU hts hwf (fun a ha => hes a (List.mem_append_left _ ha)) hnew
    rw [replay_cons, hd']
    exact ih hes hnodup hview

/-- What comes of entries in any order. -/
theorem exists_view (hes : OfDocument U id (e :: es)) (hnodup : (e :: es).Nodup) :
    ∃ d, recursiveMerge.replay none (e :: es) = some d ∧ View id (e :: es) d := by
  have hview := view_singleton (hes e List.mem_cons_self).2
  rw [replay_none_cons]
  exact hview.replay hU hts hwf hes hnodup

/-- What comes of entries does not depend on their order. -/
theorem View.eq_of_perm (hes : OfDocument U id es) (hperm : es.Perm fs) (h : View id es d)
    (h' : View id fs d') : d = d' := by
  have hfs : OfDocument U id fs := fun a ha => hes a (hperm.mem_iff.2 ha)
  cases h with
  | @deleted c hc hall =>
    cases h' with
    | @deleted c' hc' hall' =>
      -- both are the newest deletion
      have hle := (hall' c (hperm.mem_iff.1 hc)).2
      have hge := (hall c' (hperm.mem_iff.2 hc')).2
      rw [hts c (hes c hc).1 c' (hfs c' hc').1 (Std.le_antisymm hle hge)]
    | @written c' older' hperm' holder' =>
      obtain ⟨hc', hput⟩ := mem_puts.1 (hperm'.mem_iff.2 List.mem_cons_self)
      rw [(hall c' (hperm.mem_iff.2 hc')).1] at hput
      cases hput
  | @written c older hcs holder =>
    cases h' with
    | @deleted c' hc' hall' =>
      obtain ⟨hc, hput⟩ := mem_puts.1 (hcs.mem_iff.2 List.mem_cons_self)
      rw [(hall' c (hperm.mem_iff.1 hc)).1] at hput
      cases hput
    | @written c' older' hcs' holder' =>
      have hall : (c :: older).Perm (c' :: older') := hcs.symm.trans ((hperm.filter _).trans hcs')
      have heq : c = c' := newest_eq hall holder holder'
      subst heq
      have hcW := (hes.mem_writesOf hcs List.mem_cons_self).2
      have hcalm : Calm (writesOf U id) c c.content := by
        refine (hU.compatible id).calm ?_ (hwf c hcW.1) hcW
        intro a ha b hb
        exact hts a ha.1 b hb.1
      have holders : mergeOlder c.content older = mergeOlder c.content older' := by
        refine mergeOlder_eq_of_perm hcalm (fun a ha => hwf a ha.1) (List.Perm.cons_inv hall) ?_
        intro a ha
        exact ⟨(hes.mem_writesOf hcs (List.mem_cons_of_mem c ha)).2, holder a ha⟩
      rw [holders]

/-- Two orders of the same entries make the same document. -/
theorem replay_eq_of_perm (hes : OfDocument U id es) (hnodup : es.Nodup) (hperm : es.Perm fs) :
    recursiveMerge.replay none es = recursiveMerge.replay none fs := by
  cases es with
  | nil =>
    rw [hperm.nil_eq]
  | cons e es =>
    cases fs with
    | nil =>
      have hnil := hperm.eq_nil
      cases hnil
    | cons f fs =>
      obtain ⟨d, hd, hview⟩ := exists_view hU hts hwf hes hnodup
      obtain ⟨d', hd', hview'⟩ :=
        exists_view hU hts hwf (fun a ha => hes a (hperm.mem_iff.2 ha)) (hperm.nodup_iff.1 hnodup)
      rw [hd, hd', hview.eq_of_perm hU hts hwf hes hperm hview']

end Steps

end Resolver

end DocMesh
