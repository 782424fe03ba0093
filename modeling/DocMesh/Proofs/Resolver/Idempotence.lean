/-
# Entries that are resolved twice

Resolving an entry leaves a document to which the same entry has nothing to add: when it is resolved once more, the
document stays as it is, whatever was there before the entry and however old the entry is. Where writes are merged,
this rests on merging alone. A value into which `w` has been merged takes nothing from `w` when this comes again as an
older write, since part by part it has what `w` has.

Main statements:

* `merge_self` : merging a value with itself changes nothing;
* `merge_merge_right` : a value takes nothing from one that has been merged into it;
* `Resolver.resolved_twice` : an entry that is resolved twice in a row counts once.
-/
import DocMesh.Proofs.Json.Scalar
import DocMesh.Proofs.Resolver.Replay
import DocMesh.Proofs.Resolver.Parts

namespace DocMesh

/-! ## Merging twice -/

namespace Json

variable {b : Bool} {v w : Json}

/-- Merging a value with itself changes nothing. -/
theorem merge_self (b : Bool) (hv : v.WellFormed) : merge b v v = v := by
  suffices hsame : ∀ v w : Json, v = w → v.WellFormed → merge b v w = w from hsame v v rfl hv
  intro v w
  induction v, w using part_induction with
  | whole v w hne =>
    rintro rfl _
    rw [merge_of_shape?_ne b hne, ite_self, ite_self]
  | parts v w σ hσ _ ih =>
    rintro rfl hv
    apply eq_of_part?_eq (hv.merge b hv) hv (shape?_merge b hv hσ hσ) hσ
    · rw [ids_merge b hv hσ hσ, addIds_of_subset (List.Subset.refl _)]
    · intro name
      rw [part?_merge b hv hσ hσ]
      rcases hx : v.part? name with _ | x
      · rfl
      · show some (merge b x x) = some x
        rw [ih name x x hx hx rfl (wellFormed_of_part? hv hx)]

/-- A value takes nothing from one that has been merged into it. -/
theorem merge_merge_right (b : Bool) (hv : v.WellFormed) (hw : w.WellFormed) :
    merge false (merge b v w) w = merge b v w := by
  induction v, w using part_induction with
  | whole v w hne =>
    -- one of the two was kept as a whole, and neither takes anything from `w`
    have hkept : merge b v w = v ∨ merge b v w = w := by
      rw [merge_of_shape?_ne b hne]
      split
      · exact Or.inl rfl
      · cases b
        · exact Or.inl rfl
        · exact Or.inr rfl
    rcases hkept with hkept | hkept
    · rw [hkept, merge_false_of_shape?_ne hne]
    · rw [hkept, merge_self false hw]
  | parts v w σ hvσ hwσ ih =>
    have hm := hv.merge b hw
    have hmσ := shape?_merge b hw hvσ hwσ
    apply eq_of_part?_eq (hm.merge false hw) hm (shape?_merge false hw hmσ hwσ) hmσ
    · rw [ids_merge false hw hmσ hwσ, ids_merge b hw hvσ hwσ, addIds_of_subset (subset_addIds _ _)]
    · intro name
      rw [part?_merge false hw hmσ hwσ, part?_merge b hw hvσ hwσ]
      rcases hy : w.part? name with _ | y
      · rw [mergeParts_none_right]
      · have hywf := wellFormed_of_part? hw hy
        rcases hx : v.part? name with _ | x
        · -- the part came from `w`
          show some (merge false y y) = some y
          rw [merge_self false hywf]
        · show some (merge false (merge b x y) y) = some (merge b x y)
          rw [ih name x y hx hy (wellFormed_of_part? hv hx) hywf]

end Json

/-! ## Resolving twice -/

namespace Resolver

open Json

variable {r : Resolver} {before : Option Document} {d : Document} {e : Entry}

/-- An entry leaves a document. -/
theorem exists_after (r : Resolver) (before : Option Document) (e : Entry) :
    ∃ d, (r.resolve before e).after before = some d := by
  rcases before with _ | b
  · exact ⟨_, after_none r e⟩
  · obtain ⟨d, hd, -⟩ := updatedAt_after r b e
    exact ⟨d, hd⟩

/-- What an entry leaves is not older than the entry. -/
theorem not_lt_of_after (h : (r.resolve before e).after before = some d) : ¬ d.updatedAt < e.timestamp := by
  rcases before with _ | b
  · rw [after_none, Option.some.injEq] at h
    rw [← h]
    exact Std.lt_irrefl
  · obtain ⟨d', hd', hstamp⟩ := updatedAt_after r b e
    rw [h, Option.some.injEq] at hd'
    rw [hd', hstamp]
    split
    · exact Std.lt_irrefl
    · assumption

/-- Only writes that are merged change a document that is not older than they are. -/
theorem after_of_not_lt (h : ¬ d.updatedAt < e.timestamp) (hr : r = lastWriteWins ∨ e.operation = .delete) :
    (r.resolve (some d) e).after (some d) = some d := by
  cases r with
  | lastWriteWins => rw [after_lastWriteWins, if_neg h]
  | recursiveMerge =>
    have ho : e.operation = .delete := by simpa using hr
    rw [resolve_recursiveMerge_delete d ho, if_neg h]
    rfl

/-- A write changes nothing when it is merged into what it made itself. -/
theorem mergedDocument_ofEntry (he : e.content.WellFormed) (ho : e.operation = .put) :
    mergedDocument (.ofEntry e) e = .ofEntry e := by
  have hcontent : merge false (Document.ofEntry e).content e.content = e.content := merge_self false he
  have hlive : (Document.ofEntry e).deleted = false := decide_eq_false (by simp [ho])
  rw [mergedDocument_of_not_lt (d := .ofEntry e) Std.lt_irrefl, hcontent, ← hlive]
  rfl

/-- A write that is merged twice in a row counts once. -/
theorem mergedDocument_mergedDocument (hd : d.content.WellFormed) (he : e.content.WellFormed)
    (ho : e.operation = .put) :
    mergedDocument (mergedDocument d e) e = mergedDocument d e := by
  have hnew : ¬ (mergedDocument d e).updatedAt < e.timestamp := not_lt_of_after (after_put d ho)
  have hcontent : merge false (mergedDocument d e).content e.content = (mergedDocument d e).content :=
    merge_merge_right _ hd he
  rw [mergedDocument_of_not_lt hnew, hcontent]
  rfl

/-- **Entries that are resolved twice.** Either resolver leaves a document when it resolves an entry, whatever was there
before: nothing, a live document or a tombstone, older than the entry, newer or as old. Resolving the same entry
once more leaves this document as it is. -/
theorem resolved_twice (r : Resolver) (before : Option Document) (e : Entry)
    (hbefore : ∀ d ∈ before, d.content.WellFormed) (he : e.content.WellFormed) :
    ∃ d, (r.resolve before e).after before = some d ∧ (r.resolve (some d) e).after (some d) = some d := by
  obtain ⟨d, hd⟩ := exists_after r before e
  refine ⟨d, hd, ?_⟩
  cases r with
  | lastWriteWins => exact after_of_not_lt (not_lt_of_after hd) (Or.inl rfl)
  | recursiveMerge =>
    rcases ho : e.operation with _ | _
    · rw [after_put d ho]
      rcases before with _ | b
      · rw [after_none, Option.some.injEq] at hd
        rw [← hd, mergedDocument_ofEntry he ho]
      · rw [after_put b ho, Option.some.injEq] at hd
        rw [← hd, mergedDocument_mergedDocument (hbefore b rfl) he ho]
    · exact after_of_not_lt (not_lt_of_after hd) (Or.inr ho)

/-- A write that is older than the tombstone into which it is merged, whose items are named by either of the two members
and in which the two zeros meet. -/
theorem resolved_twice_tombstone :
    let item (name : String) (id v : Json) : Json := object [(name, id), ("v", v)]
    let v : Json := object [("items", array [item "_id" "7" (zero false), item "_id" "8" .null])]
    let w : Json := object [("items", array [item "id" "9" "w", item "id" (ofInt 7) (zero true)])]
    let b : Document := ⟨"notes", "x", v, ⟨9, 0, "a"⟩, true⟩
    let e : Entry := .put "notes" "x" w ⟨5, 2, "b"⟩
    (∀ d ∈ some b, d.content.WellFormed) ∧ e.content.WellFormed ∧
      ∃ d, (recursiveMerge.resolve (some b) e).after (some b) = some d ∧
        (recursiveMerge.resolve (some d) e).after (some d) = some d := by
  intro item v w b e
  have hb : ∀ d ∈ some b, d.content.WellFormed := by decide +kernel
  have he : e.content.WellFormed := by decide +kernel
  exact ⟨hb, he, resolved_twice recursiveMerge (some b) e hb he⟩

end Resolver

end DocMesh
