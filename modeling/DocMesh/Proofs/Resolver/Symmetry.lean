/-
# Two writes in either order

Two replicas that each hold one of two writes of a document and are sent the other one merge the same two values, with
the sides exchanged. What they come to is alike: it is stamped by the later of the writes, and it is equal but for the
order of items that have ids, where each replica lists its own items first, and for the sign of zero, where each
keeps its own of two zeros.

Main statements:

* `alike_equivalence` : being alike is an equivalence;
* `Alike.exists_perm` : arrays that are alike have, in some order, items that are alike;
* `alike_merge` : what comes of two values does not depend on the side on which the newer one is;
* `Resolver.writes_merge_alike` : two writes of a document, in either order.
-/
import DocMesh.Proofs.Json.Scalar
import DocMesh.Proofs.Resolver.Parts
import DocMesh.Proofs.Resolver.Replay
import Mathlib.Data.List.Forall2

namespace DocMesh

namespace Json

variable {u v w : Json} {xs ys : List Json} {is js : List String} {id : String}

/-! ## Values that are alike -/

/-- Equal as values whose items with ids are sets, and whose scalars are equal in value. -/
inductive Alike : Json → Json → Prop where
  /-- A value is like itself. -/
  | refl (v : Json) : Alike v v
  /-- Equal scalars. -/
  | scalar {v w : Json} (h : v.sameScalar w = true) : Alike v w
  /-- Objects with members of the same names that are alike. -/
  | members {ms ns : List (String × Json)} (names : ∀ name, (ms.lookup name).isSome = (ns.lookup name).isSome)
      (alike : ∀ name x y, ms.lookup name = some x → ns.lookup name = some y → Alike x y) :
      Alike (object ms) (object ns)
  /-- Arrays with items of the same ids, in any order, that are alike. -/
  | items {xs ys : List Json} {is js : List String} (hxs : itemIds? xs = some is) (hys : itemIds? ys = some js)
      (ids : is.Perm js) (alike : ∀ id x y, findItem? id xs = some x → findItem? id ys = some y → Alike x y) :
      Alike (array xs) (array ys)

theorem Alike.symm (h : Alike v w) : Alike w v := by
  induction h with
  | refl v => exact .refl v
  | scalar h => exact .scalar (sameScalar_comm h)
  | members names _ ih => exact .members (fun name => (names name).symm) fun name x y hx hy => ih name y x hy hx
  | items hxs hys ids _ ih => exact .items hys hxs ids.symm fun id x y hx hy => ih id y x hy hx

theorem Alike.trans (h : Alike u v) (h' : Alike v w) : Alike u w := by
  induction h generalizing w with
  | refl v => exact h'
  | @scalar u v h =>
    cases h' with
    | refl => exact .scalar h
    | scalar h' => exact .scalar (sameScalar_trans h h')
    | members => cases u <;> cases h
    | items => cases u <;> cases h
  | @members ms ns names alike ih =>
    cases h' with
    | refl => exact .members names alike
    | scalar h' => cases h'
    | @members _ ks names' alike' =>
      refine .members (fun name => (names name).trans (names' name)) ?_
      intro name x z hx hz
      obtain ⟨y, hy⟩ := Option.isSome_iff_exists.1 ((names name).symm.trans (Option.isSome_of_eq_some hx))
      exact ih name x y hx hy (alike' name y z hy hz)
  | @items xs ys is js hxs hys ids alike ih =>
    cases h' with
    | refl => exact .items hxs hys ids alike
    | scalar h' => cases h'
    | @items _ zs js' ks hys' hzs ids' alike' =>
      rw [hys, Option.some.injEq] at hys'
      subst hys'
      refine .items hxs hzs (ids.trans ids') ?_
      intro id x z hx hz
      have hid : id ∈ js := ids.mem_iff.1 ((isSome_findItem?_iff hxs).1 (Option.isSome_of_eq_some hx))
      obtain ⟨y, hy⟩ := Option.isSome_iff_exists.1 ((isSome_findItem?_iff hys).2 hid)
      exact ih id x y hx hy (alike' id y z hy hz)

/-- Being alike is an equivalence. -/
theorem alike_equivalence : Equivalence Alike := ⟨.refl, .symm, .trans⟩

/-- Values of one shape are alike if they have parts of the same names that are alike. -/
theorem alike_of_parts {σ : Shape} (hv : v.shape? = some σ) (hw : w.shape? = some σ)
    (names : ∀ name, (v.part? name).isSome = (w.part? name).isSome)
    (alike : ∀ name x y, v.part? name = some x → w.part? name = some y → Alike x y) : Alike v w := by
  rcases shape?_eq_some hv with ⟨rfl, ms, rfl⟩ | ⟨rfl, xs, rfl, hxs⟩
  · rcases shape?_eq_some hw with ⟨-, ns, rfl⟩ | ⟨hσ, -⟩
    · exact .members names alike
    · cases hσ
  · rcases shape?_eq_some hw with ⟨hσ, -⟩ | ⟨-, ys, rfl, hys⟩
    · cases hσ
    · refine .items hxs hys ?_ alike
      rw [List.perm_ext_iff_of_nodup (nodup_ids _) (nodup_ids _)]
      intro id
      rw [← isSome_findItem?_iff hxs, ← isSome_findItem?_iff hys]
      exact Bool.eq_iff_iff.1 (names id)

/-! ## Items in another order -/

/-- Arrays that are alike have, in some order, items that are alike. -/
theorem Alike.exists_perm (h : Alike (array xs) (array ys)) : ∃ zs, xs.Perm zs ∧ List.Forall₂ Alike zs ys := by
  cases h with
  | refl => exact ⟨xs, List.Perm.refl xs, List.forall₂_same.2 fun x _ => .refl x⟩
  | scalar h => cases h
  | @items _ _ is js hxs hys ids alike =>
    -- the items of the first array in the order of the second one
    refine ⟨js.filterMap (findItem? · xs), ?_, ?_⟩
    · have hperm := ids.filterMap (findItem? · xs)
      rwa [filterMap_findItem? hxs] at hperm
    · have halike : List.Forall₂ Alike (js.filterMap (findItem? · xs)) (js.filterMap (findItem? · ys)) := by
        apply List.rel_filterMap (R := fun id id' => id = id' ∧ id ∈ js)
        · rintro id _ ⟨rfl, hid⟩
          obtain ⟨x, hx⟩ := Option.isSome_iff_exists.1 ((isSome_findItem?_iff hxs).2 (ids.mem_iff.2 hid))
          obtain ⟨y, hy⟩ := Option.isSome_iff_exists.1 ((isSome_findItem?_iff hys).2 hid)
          show Option.Rel Alike (findItem? id xs) (findItem? id ys)
          rw [hx, hy]
          exact .some (alike id x y hx hy)
        · exact List.forall₂_same.2 fun id hid => ⟨rfl, hid⟩
      rwa [filterMap_findItem? hys] at halike

/-! ## Merging with the sides exchanged -/

theorem isSome_mergeParts_comm (a b : Bool) (x y : Option Json) :
    (mergeParts a x y).isSome = (mergeParts b y x).isSome := by
  cases x <;> cases y <;> rfl

/-- A part that only one of the sides has is the same in both orders. -/
theorem alike_mergeParts {x y : Option Json} (h : ∀ p ∈ x, ∀ q ∈ y, Alike (merge true p q) (merge false q p)) :
    ∀ p ∈ mergeParts true x y, ∀ q ∈ mergeParts false y x, Alike p q := by
  rcases x with _ | x
  · rintro p hp q hq
    rw [mergeParts_none_right] at hq
    rw [Option.mem_unique hp hq]
    exact .refl q
  · rcases y with _ | y
    · rintro p hp q hq
      rw [Option.mem_unique hp hq]
      exact .refl q
    · rintro p ⟨⟩ q ⟨⟩
      exact h x rfl y rfl

/-- **What comes of two values does not depend on the side on which the newer one is.** -/
theorem alike_merge (hv : v.WellFormed) (hw : w.WellFormed) : Alike (merge true v w) (merge false w v) := by
  induction v, w using part_induction with
  | whole v w hne =>
    have hne' : w.shape? = none ∨ w.shape? ≠ v.shape? := by
      by_contra hshare
      obtain ⟨σ, hwσ, hvσ⟩ := exists_shape_of_not hshare
      simp [hvσ, hwσ] at hne
    rw [merge_of_shape?_ne true hne, merge_false_of_shape?_ne hne']
    split
    · exact .scalar ‹_›
    · exact .refl w
  | parts v w σ hvσ hwσ ih =>
    apply alike_of_parts (shape?_merge true hw hvσ hwσ) (shape?_merge false hv hwσ hvσ)
    · intro name
      rw [part?_merge true hw hvσ hwσ, part?_merge false hv hwσ hvσ]
      exact isSome_mergeParts_comm true false _ _
    · intro name x y hx hy
      rw [part?_merge true hw hvσ hwσ] at hx
      rw [part?_merge false hv hwσ hvσ] at hy
      refine alike_mergeParts ?_ x hx y hy
      intro p hp q hq
      exact ih name p q hp hq (wellFormed_of_part? hv hp) (wellFormed_of_part? hw hq)

end Json

/-! ## Two writes -/

namespace Resolver

open Json

variable {collection key : String} {a b : Json} {s t : Timestamp}

/-- The newer write is merged into the older one. -/
theorem resolve_newer (collection key : String) (a b : Json) (h : s < t) :
    recursiveMerge.resolve (some ⟨collection, key, a, s, false⟩) (.put collection key b t)
      = .apply ⟨collection, key, merge true a b, t, false⟩ := by
  rw [resolve_recursiveMerge_put _ rfl,
    mergedDocument_of_lt (d := ⟨collection, key, a, s, false⟩) (e := .put collection key b t) h]
  rfl

/-- The older write is merged into the newer one. -/
theorem resolve_older (collection key : String) (a b : Json) (h : s < t) :
    recursiveMerge.resolve (some ⟨collection, key, b, t, false⟩) (.put collection key a s)
      = .apply ⟨collection, key, merge false b a, t, false⟩ := by
  rw [resolve_recursiveMerge_put _ rfl,
    mergedDocument_of_not_lt (d := ⟨collection, key, b, t, false⟩) (e := .put collection key a s)
      (Std.not_lt.2 (Std.le_of_lt h))]
  rfl

/-- **Two writes in either order.** Let one replica hold the live document `a` written at `s` and be sent the write of
`b` at `t`, and let another one hold `b` written at `t` and be sent the write of `a` at `s`. Where writes are merged
both apply what they are sent, and they end with documents of the same name and stamp that are alike. -/
theorem writes_merge_alike (collection key : String) (ha : a.WellFormed) (hb : b.WellFormed) (hne : s ≠ t) :
    ∃ d d', recursiveMerge.resolve (some ⟨collection, key, a, s, false⟩) (.put collection key b t) = .apply d ∧
      recursiveMerge.resolve (some ⟨collection, key, b, t, false⟩) (.put collection key a s) = .apply d' ∧
      d.id = d'.id ∧ d.updatedAt = d'.updatedAt ∧ d.deleted = d'.deleted ∧ d.content.Alike d'.content := by
  rcases Std.lt_trichotomy s t with hlt | heq | hlt
  · exact ⟨_, _, resolve_newer collection key a b hlt, resolve_older collection key a b hlt, rfl, rfl, rfl,
      alike_merge ha hb⟩
  · exact absurd heq hne
  · exact ⟨_, _, resolve_older collection key b a hlt, resolve_newer collection key b a hlt, rfl, rfl, rfl,
      (alike_merge hb ha).symm⟩

/-- Two writes of arrays that share an item, in which the two zeros meet. -/
theorem writes_merge_alike_arrays :
    let item (name id : String) (v : Json) : Json := object [(name, id), ("v", v)]
    let a : Json := object [("items", array [item "_id" "8" .null, item "id" "7" (zero false)]), ("n", ofInt 1)]
    let b : Json := object [("items", array [item "_id" "7" (zero true), item "id" "9" "w"]), ("n", array [])]
    let s : Timestamp := ⟨5, 2, "a"⟩
    let t : Timestamp := ⟨5, 2, "b"⟩
    a.WellFormed ∧ b.WellFormed ∧ s ≠ t ∧
      ∃ d d', recursiveMerge.resolve (some ⟨"notes", "x", a, s, false⟩) (.put "notes" "x" b t) = .apply d ∧
        recursiveMerge.resolve (some ⟨"notes", "x", b, t, false⟩) (.put "notes" "x" a s) = .apply d' ∧
        d.id = d'.id ∧ d.updatedAt = d'.updatedAt ∧ d.deleted = d'.deleted ∧ d.content.Alike d'.content := by
  intro item a b s t
  have ha : a.WellFormed := by decide +kernel
  have hb : b.WellFormed := by decide +kernel
  have hne : s ≠ t := by decide
  exact ⟨ha, hb, hne, writes_merge_alike "notes" "x" ha hb hne⟩

end Resolver

end DocMesh
