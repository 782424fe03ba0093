/-
# What resolvers decide

Each resolver, case by case, and what the two have in common: they never change the name of a document, and
they leave it stamped by the later of its own stamp and that of the entry.

Main statements:

* `id_of_resolve` : a resolved document is the one that the entry is about;
* `after_none`, `updatedAt_after` : the state after a resolution exists, and which stamp it has;
* `exists_apply_of_lt` : no entry that is newer than its document is ignored.
-/
import DocMesh.Proofs.Clock
import DocMesh.Resolver.Basic

namespace DocMesh

namespace Resolver

variable {r : Resolver} {before : Option Document} {d d' : Document} {e : Entry}

/-! ## Case by case -/

theorem resolve_none (r : Resolver) (e : Entry) : r.resolve none e = .apply (.ofEntry e) := by
  cases r <;> rfl

theorem resolve_lastWriteWins_of_lt (h : d.updatedAt < e.timestamp) :
    lastWriteWins.resolve (some d) e = .apply (.ofEntry e) := if_pos h

theorem resolve_lastWriteWins_of_not_lt (h : ¬ d.updatedAt < e.timestamp) :
    lastWriteWins.resolve (some d) e = .ignore := if_neg h

theorem resolve_recursiveMerge_put (d : Document) (h : e.operation = .put) :
    recursiveMerge.resolve (some d) e = .apply (mergedDocument d e) := by
  show resolveMerging (some d) e = _
  unfold resolveMerging
  rw [h]

theorem resolve_recursiveMerge_delete (d : Document) (h : e.operation = .delete) :
    recursiveMerge.resolve (some d) e
      = if d.updatedAt < e.timestamp then .apply (.tombstone e.collection e.key e.timestamp)
        else .ignore := by
  show resolveMerging (some d) e = _
  unfold resolveMerging
  rw [h]

/-! ## Names -/

/-- A resolved document is about the same collection and key as the entry. -/
theorem id_of_resolve (hbefore : ∀ b ∈ before, b.id = e.documentId)
    (h : r.resolve before e = .apply d) : d.id = e.documentId := by
  rcases before with _ | b
  · rw [resolve_none] at h
    cases h
    rfl
  · by_cases hlt : b.updatedAt < e.timestamp
    · cases r with
      | lastWriteWins =>
        rw [resolve_lastWriteWins_of_lt hlt] at h
        cases h
        rfl
      | recursiveMerge =>
        rcases ho : e.operation with _ | _
        · rw [resolve_recursiveMerge_put b ho] at h
          cases h
          exact hbefore b rfl
        · rw [resolve_recursiveMerge_delete b ho, if_pos hlt] at h
          cases h
          rfl
    · cases r with
      | lastWriteWins =>
        rw [resolve_lastWriteWins_of_not_lt hlt] at h
        cases h
      | recursiveMerge =>
        rcases ho : e.operation with _ | _
        · rw [resolve_recursiveMerge_put b ho] at h
          cases h
          exact hbefore b rfl
        · rw [resolve_recursiveMerge_delete b ho, if_neg hlt] at h
          cases h

/-! ## Stamps -/

/-- An entry without a document makes one. -/
theorem after_none (r : Resolver) (e : Entry) :
    (r.resolve none e).after none = some (.ofEntry e) := by
  rw [resolve_none]
  rfl

theorem updatedAt_mergedDocument (d : Document) (e : Entry) :
    (mergedDocument d e).updatedAt = if d.updatedAt < e.timestamp then e.timestamp else d.updatedAt := by
  show (if d.updatedAt ≤ e.timestamp then e.timestamp else d.updatedAt) = _
  by_cases h : d.updatedAt < e.timestamp
  · rw [if_pos h, if_pos (Std.le_of_lt h)]
  · rw [if_neg h]
    split
    · exact Std.le_antisymm (Std.not_lt.1 h) ‹_›
    · rfl

/-- An older entry leaves the stamp of a document as it is, a newer one replaces it. -/
theorem updatedAt_after (r : Resolver) (d : Document) (e : Entry) :
    ∃ d', (r.resolve (some d) e).after (some d) = some d' ∧
      d'.updatedAt = if d.updatedAt < e.timestamp then e.timestamp else d.updatedAt := by
  cases r with
  | lastWriteWins =>
    by_cases h : d.updatedAt < e.timestamp
    · rw [resolve_lastWriteWins_of_lt h, if_pos h]
      exact ⟨_, rfl, rfl⟩
    · rw [resolve_lastWriteWins_of_not_lt h, if_neg h]
      exact ⟨d, rfl, rfl⟩
  | recursiveMerge =>
    rcases ho : e.operation with _ | _
    · rw [resolve_recursiveMerge_put d ho]
      exact ⟨mergedDocument d e, rfl, updatedAt_mergedDocument d e⟩
    · rw [resolve_recursiveMerge_delete d ho]
      by_cases h : d.updatedAt < e.timestamp
      · rw [if_pos h, if_pos h]
        exact ⟨_, rfl, rfl⟩
      · rw [if_neg h, if_neg h]
        exact ⟨d, rfl, rfl⟩

/-- Where the newest write wins, a document is replaced as a whole or stays as it is. -/
theorem after_lastWriteWins (d : Document) (e : Entry) :
    (lastWriteWins.resolve (some d) e).after (some d)
      = some (if d.updatedAt < e.timestamp then .ofEntry e else d) := by
  by_cases h : d.updatedAt < e.timestamp
  · rw [resolve_lastWriteWins_of_lt h, if_pos h]
    rfl
  · rw [resolve_lastWriteWins_of_not_lt h, if_neg h]
    rfl

/-! ## Newer entries -/

/-- An entry that is newer than its document is never ignored. -/
theorem exists_apply_of_lt (r : Resolver) (h : ∀ d ∈ before, d.updatedAt < e.timestamp) :
    ∃ d, r.resolve before e = .apply d := by
  rcases before with _ | d
  · exact ⟨_, resolve_none r e⟩
  · cases r with
    | lastWriteWins => exact ⟨_, resolve_lastWriteWins_of_lt (h d rfl)⟩
    | recursiveMerge =>
      rcases ho : e.operation with _ | _
      · exact ⟨_, resolve_recursiveMerge_put d ho⟩
      · rw [resolve_recursiveMerge_delete d ho, if_pos (h d rfl)]
        exact ⟨_, rfl⟩

/-- Where the newest write wins, an entry that is newer than its document replaces it. -/
theorem resolve_lastWriteWins_newer (h : ∀ d ∈ before, d.updatedAt < e.timestamp) :
    lastWriteWins.resolve before e = .apply (.ofEntry e) := by
  rcases before with _ | d
  · exact resolve_none lastWriteWins e
  · exact resolve_lastWriteWins_of_lt (h d rfl)

/-- A deletion that is newer than its document leaves a tombstone. -/
theorem exists_deleted_of_delete (r : Resolver) (h : ∀ d ∈ before, d.updatedAt < e.timestamp)
    (ho : e.operation = .delete) : ∃ d, r.resolve before e = .apply d ∧ d.deleted = true := by
  have hdeleted : (Document.ofEntry e).deleted = true := decide_eq_true ho
  cases r with
  | lastWriteWins => exact ⟨_, resolve_lastWriteWins_newer h, hdeleted⟩
  | recursiveMerge =>
    rcases before with _ | d
    · exact ⟨_, resolve_none recursiveMerge e, hdeleted⟩
    · rw [resolve_recursiveMerge_delete d ho, if_pos (h d rfl)]
      exact ⟨_, rfl, rfl⟩

end Resolver

end DocMesh
