/-
# Entries that come again

A peer may send an entry that the log has already. The log does not take it twice, but the resolver is asked
again, about a document that may have moved on. Where the newest write wins, it ignores the entry. Where writes are
merged, a write is merged again as an older one: it changes the document if that has become a tombstone, or has lost
a part of the write to a newer one of another shape.

Main statements:

* `Resolver.replay_eq_iff` : which entries that are not newer leave a document as it is;
* `redelivered_iff` : which entries of the log leave a store as it is when they come again;
* `redelivery_revives` : a deleted document that comes back, and a removed member that does.
-/
import DocMesh.Proofs.Resolver.Coverage
import DocMesh.Proofs.Store.Merging

namespace DocMesh

open Json

/-! ## Documents that show a write -/

namespace Document

variable {d d' : Document} {e : Entry}

/-- The document shows the write: it is no tombstone, and its content covers that of the write. A deletion has
nothing to show. -/
def Shows (d : Document) (e : Entry) : Prop :=
  e.operation = .put → d.deleted = false ∧ d.content.Covers e.content

instance (d : Document) (e : Entry) : Decidable (d.Shows e) := inferInstanceAs (Decidable (_ → _))

/-- The second is what becomes of the first when older writes are merged into it. -/
structure Furthered (d d' : Document) : Prop where
  id : d'.id = d.id
  updatedAt : d'.updatedAt = d.updatedAt
  content : Json.GrowsTo d.content d'.content
  live : d.deleted = false → d'.deleted = false

theorem Furthered.refl (d : Document) : Furthered d d := ⟨rfl, rfl, .refl _, fun h => h⟩

theorem Furthered.trans {d'' : Document} (h : Furthered d d') (h' : Furthered d' d'') : Furthered d d'' :=
  ⟨h'.id.trans h.id, h'.updatedAt.trans h.updatedAt, h.content.trans h'.content, fun hd => h'.live (h.live hd)⟩

/-- A document that is as before in the end never changed. -/
theorem Furthered.eq_of_furthered (h : Furthered d d') (h' : Furthered d' d) : d' = d := by
  have hcontent := h.content.eq_of_growsTo h'.content
  have hdeleted : d'.deleted = d.deleted := by
    rw [Bool.eq_iff_iff, ← not_iff_not, Bool.not_eq_true, Bool.not_eq_true]
    exact ⟨h'.live, h.live⟩
  have hid := h.id
  have hstamp := h.updatedAt
  cases d
  cases d'
  injection hid with hcollection hkey
  simp_all

end Document

/-! ## What resolvers make of entries that are not newer -/

namespace Resolver

variable {d : Document} {e : Entry} {es : List Entry}

/-- Where the newest write wins, entries that are not newer are ignored. -/
theorem replay_lastWriteWins (h : ∀ e ∈ es, ¬ d.updatedAt < e.timestamp) :
    lastWriteWins.replay (some d) es = some d := by
  induction es with
  | nil => rfl
  | cons e es ih =>
    rw [List.forall_mem_cons] at h
    rw [replay_cons, after_lastWriteWins, if_neg h.1, ih h.2]

/-- A write that is not newer leaves the document as it is exactly if the document shows it. -/
theorem mergedDocument_eq_iff (h : ¬ d.updatedAt < e.timestamp) (ho : e.operation = .put) :
    mergedDocument d e = d ↔ d.Shows e := by
  rw [mergedDocument_of_not_lt h]
  constructor
  · intro heq _
    have hcontent := congrArg Document.content heq
    exact ⟨(congrArg Document.deleted heq).symm, Json.merge_false_eq_iff.1 hcontent⟩
  · intro hshows
    obtain ⟨hlive, hcovers⟩ := hshows ho
    rw [Json.merge_false_eq_iff.2 hcovers, ← hlive]

/-- An entry that is not newer furthers the document, which stays as it is exactly if it shows the entry. -/
theorem exists_furthered (h : ¬ d.updatedAt < e.timestamp) :
    ∃ d', (recursiveMerge.resolve (some d) e).after (some d) = some d' ∧ d.Furthered d' ∧
      (d' = d ↔ d.Shows e) := by
  rcases ho : e.operation with _ | _
  · refine ⟨mergedDocument d e, after_put d ho, ?_, mergedDocument_eq_iff h ho⟩
    rw [mergedDocument_of_not_lt h]
    exact ⟨rfl, rfl, Json.growsTo_merge_false _ _, fun _ => rfl⟩
  · refine ⟨d, after_delete_of_not_lt ho h, .refl d, ?_⟩
    simp [Document.Shows, ho]

/-- Entries that are not newer further the document. -/
theorem exists_furthered_replay (h : ∀ e ∈ es, ¬ d.updatedAt < e.timestamp) :
    ∃ d', recursiveMerge.replay (some d) es = some d' ∧ d.Furthered d' := by
  induction es generalizing d with
  | nil => exact ⟨d, rfl, .refl d⟩
  | cons e es ih =>
    rw [List.forall_mem_cons] at h
    obtain ⟨d', hd', hfurthered, -⟩ := exists_furthered h.1
    have hrest : ∀ e ∈ es, ¬ d'.updatedAt < e.timestamp := by
      rw [hfurthered.updatedAt]
      exact h.2
    obtain ⟨d'', hd'', hfurthered'⟩ := ih hrest
    exact ⟨d'', by rw [replay_cons, hd', hd''], hfurthered.trans hfurthered'⟩

/-- Entries that are not newer leave the document as it is exactly if it shows each of them. -/
theorem replay_eq_iff (h : ∀ e ∈ es, ¬ d.updatedAt < e.timestamp) :
    recursiveMerge.replay (some d) es = some d ↔ ∀ e ∈ es, d.Shows e := by
  induction es with
  | nil => simp
  | cons e es ih =>
    rw [List.forall_mem_cons] at h
    rw [List.forall_mem_cons, ← ih h.2]
    obtain ⟨d', hd', hfurthered, hshows⟩ := exists_furthered h.1
    rw [replay_cons, hd', ← hshows]
    constructor
    · intro hback
      -- the rest of the entries cannot undo what the first one does
      have hrest : ∀ e ∈ es, ¬ d'.updatedAt < e.timestamp := by
        rw [hfurthered.updatedAt]
        exact h.2
      obtain ⟨d'', hd'', hfurthered'⟩ := exists_furthered_replay hrest
      rw [hback] at hd''
      cases hd''
      have hsame := hfurthered.eq_of_furthered hfurthered'
      rw [hsame] at hback
      exact ⟨hsame, hback⟩
    · rintro ⟨rfl, hback⟩
      exact hback

end Resolver

/-! ## Entries of the log -/

namespace Store

variable {r : Resolver} {s : Store} {e : Entry} {es : List Entry} {id : DocumentId} {d : Document}

/-- All entries of a grown log are valid. -/
theorem Grown.entryFault?_eq_none (h : Grown r s) : ∀ e ∈ s.log.toList, entryFault? e = none := by
  refine Grown.induction (P := fun s => ∀ e ∈ s.log.toList, entryFault? e = none) ?_ ?_ ?_ h
  · intro e he
    cases he
  · intro s f hs
    exact hs
  · intro s a _ hvalid hs e he
    rw [log_applyEntry] at he
    rcases Ordered.mem_insertNew.1 he with he | ⟨rfl, -⟩
    · exact hs e he
    · exact hvalid

/-- The log does not take an entry twice. -/
theorem log_applyAll_of_mem (h : ∀ e ∈ es, e ∈ s.log.toList) : (s.applyAll es).log = s.log := by
  induction es generalizing s with
  | nil => rfl
  | cons e es ih =>
    rw [List.forall_mem_cons] at h
    have hlog : (s.applyEntry e).log = s.log := by rw [log_applyEntry, Ordered.insertNew_of_mem h.1]
    rw [applyAll_cons, ih (by rw [hlog]; exact h.2), hlog]

/-- No entry of the log is newer than its document, which is there. -/
theorem Stamped.exists_not_lt (h : Stamped s) (he : e ∈ s.log.toList) :
    ∃ d, s.documents.find? e.documentId = some d ∧ ¬ d.updatedAt < e.timestamp := by
  rcases hf : s.documents.find? e.documentId with _ | d
  · exact absurd rfl (h.absent hf e he)
  · obtain ⟨a, ⟨-, -, hmax⟩, hstamp, -⟩ := h.present hf
    refine ⟨d, rfl, Std.not_lt.2 ?_⟩
    rw [hstamp]
    exact hmax e he rfl

/-- The entries for a document that the log has are not newer than the document. -/
theorem Stamped.not_lt_of_mem_entriesOf (h : Stamped s) (hes : ∀ e ∈ es, e ∈ s.log.toList)
    (hd : s.documents.find? id = some d) : ∀ e ∈ entriesOf id es, ¬ d.updatedAt < e.timestamp := by
  intro e he
  obtain ⟨hmem, hid⟩ := List.mem_filter.1 he
  obtain ⟨d', hd', hlt⟩ := h.exists_not_lt (hes e hmem)
  rw [of_decide_eq_true hid, hd] at hd'
  cases hd'
  exact hlt

/-- There are no entries for a document that is not there. -/
theorem Stamped.entriesOf_eq_nil (h : Stamped s) (hes : ∀ e ∈ es, e ∈ s.log.toList)
    (hd : s.documents.find? id = none) : entriesOf id es = [] := by
  rw [entriesOf, List.filter_eq_nil_iff]
  intro e he hid
  exact h.absent hd e (hes e he) (of_decide_eq_true hid)

/-- Entries of the log change no stamp. -/
theorem Stamped.map_updatedAt_applyAll (h : Stamped s) (hes : ∀ e ∈ es, e ∈ s.log.toList) (id : DocumentId) :
    ((s.applyAll es).documents.find? id).map (·.updatedAt) = (s.documents.find? id).map (·.updatedAt) := by
  rw [find?_applyAll]
  rcases hd : s.documents.find? id with _ | d
  · rw [h.entriesOf_eq_nil hes hd, Resolver.replay_nil]
  · have hle := h.not_lt_of_mem_entriesOf hes hd
    cases s.resolver with
    | lastWriteWins => rw [Resolver.replay_lastWriteWins hle]
    | recursiveMerge =>
      obtain ⟨d', hd', hfurthered⟩ := Resolver.exists_furthered_replay hle
      rw [hd', Option.map_some, Option.map_some, hfurthered.updatedAt]

/-- Where the newest write wins, entries of the log change no document. -/
theorem Stamped.documents_applyAll_lastWriteWins (h : Stamped s) (hr : s.resolver = .lastWriteWins)
    (hes : ∀ e ∈ es, e ∈ s.log.toList) : (s.applyAll es).documents = s.documents := by
  apply Ordered.eq_of_find?_eq
  intro id
  rw [find?_applyAll, hr]
  rcases hd : s.documents.find? id with _ | d
  · rw [h.entriesOf_eq_nil hes hd, Resolver.replay_nil]
  · exact Resolver.replay_lastWriteWins (h.not_lt_of_mem_entriesOf hes hd)

/-- Where writes are merged, entries of the log change no document exactly if each is shown by its own. -/
theorem Stamped.documents_applyAll_recursiveMerge (h : Stamped s) (hr : s.resolver = .recursiveMerge)
    (hes : ∀ e ∈ es, e ∈ s.log.toList) :
    (s.applyAll es).documents = s.documents ↔
      ∀ e ∈ es, ∃ d, s.documents.find? e.documentId = some d ∧ d.Shows e := by
  constructor
  · intro hsame e he
    obtain ⟨d, hd, -⟩ := h.exists_not_lt (hes e he)
    have hreplay := congrArg (fun documents : Ordered Document.id => documents.find? e.documentId) hsame
    rw [find?_applyAll, hr, hd, Resolver.replay_eq_iff (h.not_lt_of_mem_entriesOf hes hd)] at hreplay
    exact ⟨d, hd, hreplay e (List.mem_filter.2 ⟨he, decide_eq_true rfl⟩)⟩
  · intro hshown
    apply Ordered.eq_of_find?_eq
    intro id
    rw [find?_applyAll, hr]
    rcases hd : s.documents.find? id with _ | d
    · rw [h.entriesOf_eq_nil hes hd, Resolver.replay_nil]
    · rw [Resolver.replay_eq_iff (h.not_lt_of_mem_entriesOf hes hd)]
      intro e he
      obtain ⟨hmem, hid⟩ := List.mem_filter.1 he
      obtain ⟨d', hd', hshows⟩ := hshown e hmem
      rw [of_decide_eq_true hid, hd] at hd'
      cases hd'
      exact hshows

/-- **Entries that come again.** A grown store accepts every batch of entries that are in its log already, and neither
its log nor the stamp of any document changes. Where the newest write wins, no document changes at all. Where writes
are merged, the documents stay as they are exactly if each of the writes is shown by its document, which then is no
tombstone and has all that the write would add. -/
theorem redelivered_iff (h : Grown r s) (hes : ∀ e ∈ es, e ∈ s.log.toList) :
    ∃ s' n, s.applyBatch [] es = .ok (s', n) ∧ s'.log = s.log ∧
      (∀ collection key, (s'.document? collection key).map (·.updatedAt)
        = (s.document? collection key).map (·.updatedAt)) ∧
      (s'.documents = s.documents ↔ r = .lastWriteWins ∨
        ∀ e ∈ es, ∃ d, s.document? e.collection e.key = some d ∧ d.Shows e) := by
  have hstamped := h.stamped
  refine ⟨_, _, applyBatch_nil_of_valid s fun e he => h.entryFault?_eq_none e (hes e he),
    log_applyAll_of_mem hes, fun collection key => hstamped.map_updatedAt_applyAll hes ⟨collection, key⟩, ?_⟩
  have hr := h.resolver_eq
  cases r with
  | lastWriteWins => simp [hstamped.documents_applyAll_lastWriteWins hr hes]
  | recursiveMerge =>
    rw [hstamped.documents_applyAll_recursiveMerge hr hes]
    simp only [reduceCtorEq, false_or]
    exact Iff.rfl

/-- An ignored deletion and two writes of different members, which all come again. -/
theorem redelivered_merged :
    let p : Entry := .put "notes" "x" (object [("a", ofInt 1)]) ⟨1, 0, "a"⟩
    let d : Entry := .delete "notes" "x" ⟨2, 0, "b"⟩
    let q : Entry := .put "notes" "x" (object [("b", object [("c", ofInt 2)])]) ⟨3, 0, "b"⟩
    ∃ s, Grown .recursiveMerge s ∧ s.log.toList = [p, d, q] ∧
      ∃ s' n, s.applyBatch [] [q, d, p] = .ok (s', n) ∧ s'.log = s.log ∧ s'.documents = s.documents := by
  intro p d q
  have hvalid : ∀ e ∈ [p, q, d], entryFault? e = none := by decide
  have hgrown := (Grown.empty (r := .recursiveMerge)).batch (applyBatch_nil_of_valid _ hvalid)
  refine ⟨_, hgrown, by decide +kernel, ?_⟩
  have hmem : ∀ e ∈ [q, d, p], e ∈ (({ resolver := .recursiveMerge } : Store).applyAll [p, q, d]).log.toList := by
    decide +kernel
  obtain ⟨s', n, happlied, hlog, -, hsame⟩ := redelivered_iff hgrown hmem
  refine ⟨s', n, happlied, hlog, hsame.2 (.inr ?_)⟩
  intro e he
  refine ⟨⟨"notes", "x", object [("a", ofInt 1), ("b", object [("c", ofInt 2)])], ⟨3, 0, "b"⟩, false⟩, ?_⟩
  revert e
  decide +kernel

/-- A deleted document that comes back with the write before the deletion, and a part of an old write that comes back
though a newer write replaced what it is a part of. -/
theorem redelivery_revives :
    let p : Entry := .put "notes" "x" (object [("v", ofInt 1)]) ⟨1, 0, "b"⟩
    let d : Entry := .delete "notes" "x" ⟨2, 0, "a"⟩
    let q : Entry := .put "notes" "y" (object [("m", object [("x", ofInt 1)])]) ⟨1, 0, "a"⟩
    let t : Entry := .put "notes" "y" (object [("m", ofInt 5)]) ⟨2, 0, "a"⟩
    let u : Entry := .put "notes" "y" (object [("m", object [("y", ofInt 2)])]) ⟨3, 0, "a"⟩
    ∃ s, Grown .recursiveMerge s ∧ s.log.toList = [q, p, d, t, u] ∧
      s.document? "notes" "x" = some (.tombstone "notes" "x" ⟨2, 0, "a"⟩) ∧
      s.document? "notes" "y"
        = some ⟨"notes", "y", object [("m", object [("y", ofInt 2)])], ⟨3, 0, "a"⟩, false⟩ ∧
      ∃ s' n, s.applyBatch [] [p, q] = .ok (s', n) ∧ s'.log = s.log ∧
        s'.document? "notes" "x"
          = some ⟨"notes", "x", object [("v", ofInt 1)], ⟨2, 0, "a"⟩, false⟩ ∧
        s'.document? "notes" "y"
          = some ⟨"notes", "y", object [("m", object [("x", ofInt 1), ("y", ofInt 2)])],
              ⟨3, 0, "a"⟩, false⟩ := by
  intro p d q t u
  have hvalid : ∀ e ∈ [p, d, q, t, u], entryFault? e = none := by decide
  have hagain : ∀ e ∈ [p, q], entryFault? e = none := by decide
  have hgrown := (Grown.empty (r := .recursiveMerge)).batch (applyBatch_nil_of_valid _ hvalid)
  refine ⟨_, hgrown, by decide +kernel, by decide +kernel, by decide +kernel, ?_⟩
  exact ⟨_, _, applyBatch_nil_of_valid _ hagain, by decide +kernel, by decide +kernel, by decide +kernel⟩

end Store

end DocMesh
