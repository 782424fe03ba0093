/-
# What an older write still adds

An older write that is merged into a value adds what the value does not have, and replaces nothing. So the value
either stays as it is or becomes larger, and it stays as it is exactly if it covers the write: if it has, part
by part, everything that the write would add.

Main statements:

* `shape_induction` : what is proved for values of different shapes, and from parts to wholes, holds of all values;
* `growsTo_merge_false` : an older write leaves a value as it is or makes it larger;
* `merge_false_eq_iff` : it leaves exactly those values as they are that cover it.
-/
import DocMesh.Proofs.Resolver.Parts

namespace DocMesh.Json

variable {b : Bool} {v w : Json} {loc rem : List Json} {ms ns xs : List (String × Json)} {m : String × Json}
  {name : String} {is js : List String}

/-! ## Growth -/

/-- The second is the first or larger. -/
def GrowsTo {α : Type} [SizeOf α] (x y : α) : Prop := y = x ∨ sizeOf x < sizeOf y

namespace GrowsTo

variable {α : Type} [SizeOf α] {x y z : α} {xs ys : List α}

theorem refl (x : α) : GrowsTo x x := Or.inl rfl

theorem sizeOf_le (h : GrowsTo x y) : sizeOf x ≤ sizeOf y := by
  rcases h with rfl | h
  · exact Nat.le_refl _
  · exact Nat.le_of_lt h

theorem trans (hxy : GrowsTo x y) (hyz : GrowsTo y z) : GrowsTo x z := by
  rcases hxy with rfl | hxy
  · exact hyz
  · exact Or.inr (Nat.lt_of_lt_of_le hxy hyz.sizeOf_le)

/-- What grows and is as it was at last never changed. -/
theorem eq_of_growsTo (hxy : GrowsTo x y) (hyx : GrowsTo y x) : y = x := by
  rcases hxy with h | h
  · exact h
  · exact absurd hyx.sizeOf_le (Nat.not_le.2 h)

theorem cons (h : GrowsTo x y) (hs : GrowsTo xs ys) : GrowsTo (x :: xs) (y :: ys) := by
  have hle := h.sizeOf_le
  have hsle := hs.sizeOf_le
  rcases h with rfl | h
  · rcases hs with rfl | hs
    · exact Or.inl rfl
    · right
      simp only [List.cons.sizeOf_spec]
      omega
  · right
    simp only [List.cons.sizeOf_spec]
    omega

/-- A list has grown out of its sublists. -/
theorem of_sublist (h : xs.Sublist ys) : GrowsTo xs ys := by
  induction h with
  | slnil => exact refl _
  | cons y h ih =>
    right
    have hle := ih.sizeOf_le
    simp only [List.cons.sizeOf_spec]
    omega
  | cons_cons y h ih => exact (refl y).cons ih

end GrowsTo

theorem growsTo_member {name : String} (h : GrowsTo v w) : GrowsTo (name, v) (name, w) := by
  rcases h with rfl | h
  · exact Or.inl rfl
  · right
    simp only [Prod.mk.sizeOf_spec]
    omega

theorem growsTo_object (h : GrowsTo ms ns) : GrowsTo (object ms) (object ns) := by
  rcases h with rfl | h
  · exact Or.inl rfl
  · right
    simp only [object.sizeOf_spec]
    omega

theorem growsTo_array {xs ys : List Json} (h : GrowsTo xs ys) : GrowsTo (array xs) (array ys) := by
  rcases h with rfl | h
  · exact Or.inl rfl
  · right
    simp only [array.sizeOf_spec]
    omega

/-! ## Members -/

theorem isSome_lookup_iff : (ms.lookup name).isSome ↔ name ∈ ms.map Prod.fst := by
  rw [← Option.ne_none_iff_isSome, ne_eq, lookup_eq_none_iff, List.mem_map]
  push Not
  rfl

/-- Placing a member drops no members of other names. -/
theorem sublist_place (h : xs.Sublist ms) (hm : m.1 ∉ xs.map Prod.fst) : xs.Sublist (place Prod.fst m ms) := by
  induction h with
  | slnil => exact List.nil_sublist _
  | @cons xs ms n h ih =>
    rw [place]
    split
    · exact (h.cons n).cons m
    · exact h.cons m
    · exact (ih hm).cons n
  | @cons_cons xs ms n h ih =>
    rw [List.map_cons, List.mem_cons, not_or] at hm
    rw [place]
    split
    · exact (h.cons_cons n).cons m
    · rename_i heq
      exact absurd (Std.LawfulEqOrd.eq_of_compare heq) hm.1
    · exact (ih hm.2).cons_cons n

/-- Members of the local object are not dropped. -/
theorem sublist_addMembers (hxs : ∀ x ∈ xs, (ns.lookup x.1).isSome) (rem : List (String × Json))
    (h : xs.Sublist ms) : xs.Sublist (addMembers ns ms rem) := by
  induction rem generalizing ms with
  | nil => exact h
  | cons m rem ih =>
    rw [addMembers_cons]
    apply ih
    split
    · exact h
    · rename_i hnew
      apply sublist_place h
      intro hmem
      obtain ⟨x, hx, hname⟩ := List.mem_map.1 hmem
      exact hnew (hname ▸ hxs x hx)

theorem isSome_lookup_addMembers (ns rem : List (String × Json)) (h : (ms.lookup name).isSome) :
    ((addMembers ns ms rem).lookup name).isSome := by
  induction rem generalizing ms with
  | nil => exact h
  | cons m rem ih =>
    rw [addMembers_cons]
    apply ih
    split
    · exact h
    · rw [lookup_place]
      split
      · rfl
      · exact h

/-- All members of the remote object are there in the end. -/
theorem isSome_lookup_addMembers_of_mem {rem : List (String × Json)}
    (hms : ∀ name, (ns.lookup name).isSome → (ms.lookup name).isSome) (hm : m ∈ rem) :
    ((addMembers ns ms rem).lookup m.1).isSome := by
  induction rem generalizing ms with
  | nil => cases hm
  | cons n rem ih =>
    rw [addMembers_cons]
    rcases List.mem_cons.1 hm with rfl | hm
    · apply isSome_lookup_addMembers
      split
      · rename_i hold
        exact hms m.1 hold
      · rw [lookup_place, if_pos rfl]
        rfl
    · apply ih _ hm
      intro name hname
      split
      · exact hms name hname
      · rw [lookup_place]
        split
        · rfl
        · exact hms name hname

/-- Nothing is added if no name is new. -/
theorem addMembers_eq_self {rem : List (String × Json)} (h : ∀ m ∈ rem, (ns.lookup m.1).isSome) :
    addMembers ns ms rem = ms := by
  induction rem with
  | nil => rfl
  | cons m rem ih =>
    rw [List.forall_mem_cons] at h
    rw [addMembers_cons, if_pos h.1, ih h.2]

theorem mergeMembers_eq_self_iff {rem : List (String × Json)} :
    mergeMembers b ms rem = ms ↔ ∀ m ∈ ms, ∀ w, rem.lookup m.1 = some w → merge b m.2 w = m.2 := by
  induction ms with
  | nil => simp [mergeMembers]
  | cons m ms ih =>
    obtain ⟨name, v⟩ := m
    rw [mergeMembers_cons, List.cons.injEq, ih, List.forall_mem_cons, Prod.mk.injEq]
    rcases rem.lookup name with _ | w <;> simp [mergeParts]

/-- The members of merged objects are those of the local one, changed or not, and perhaps others. -/
theorem sublist_merged_members (b : Bool) (ms rem : List (String × Json)) :
    (mergeMembers b ms rem).Sublist (addMembers ms (mergeMembers b ms rem) rem) := by
  apply sublist_addMembers _ rem (List.Sublist.refl _)
  intro x hx
  rw [isSome_lookup_iff, ← map_fst_mergeMembers b ms rem]
  exact List.mem_map_of_mem hx

/-- Merged objects are as the local one exactly if it has all names and merging changes none of its members. -/
theorem merged_members_eq_iff {rem : List (String × Json)} :
    addMembers ms (mergeMembers b ms rem) rem = ms ↔
      (∀ m ∈ rem, (ms.lookup m.1).isSome) ∧ mergeMembers b ms rem = ms := by
  constructor
  · intro h
    have hnames : ∀ m ∈ rem, (ms.lookup m.1).isSome := by
      intro m hm
      have hsome : ((addMembers ms (mergeMembers b ms rem) rem).lookup m.1).isSome := by
        apply isSome_lookup_addMembers_of_mem _ hm
        intro name hname
        rwa [isSome_lookup_iff, map_fst_mergeMembers, ← isSome_lookup_iff]
      rwa [h] at hsome
    rw [addMembers_eq_self hnames] at h
    exact ⟨hnames, h⟩
  · rintro ⟨hnames, h⟩
    rw [addMembers_eq_self hnames, h]

/-! ## Items -/

theorem length_mergeItems (b : Bool) (loc rem : List Json) : (mergeItems b loc rem).length = loc.length := by
  induction loc with
  | nil => rw [mergeItems]
  | cons v loc ih => rw [mergeItems_cons, List.length_cons, List.length_cons, ih]

theorem mergeItems_eq_self_iff :
    mergeItems b loc rem = loc ↔
      ∀ v ∈ loc, ∀ w, v.itemId?.bind (findItem? · rem) = some w → merge b v w = v := by
  induction loc with
  | nil => simp [mergeItems]
  | cons v loc ih =>
    rw [mergeItems_cons, List.cons.injEq, ih, List.forall_mem_cons]
    rcases v.itemId?.bind (findItem? · rem) with _ | w <;> simp [mergeParts]

theorem newItems_eq_nil_iff (hrem : itemIds? rem = some js) : newItems is rem = [] ↔ js ⊆ is := by
  have hids := map_itemId?_newItems is (itemIds?_eq_some_iff.1 hrem).1
  rw [← List.map_eq_nil_iff (f := itemId?), hids, List.map_eq_nil_iff, List.filter_eq_nil_iff]
  simp [List.subset_def]

/-- Merged arrays are as the local one exactly if it has all ids and merging changes none of its items. -/
theorem merged_items_eq_iff (hrem : itemIds? rem = some js) :
    mergeItems b loc rem ++ newItems is rem = loc ↔ js ⊆ is ∧ mergeItems b loc rem = loc := by
  rw [← newItems_eq_nil_iff hrem]
  constructor
  · intro h
    have hlength := congrArg List.length h
    rw [List.length_append, length_mergeItems] at hlength
    have hnil : newItems is rem = [] := List.eq_nil_of_length_eq_zero (by omega)
    rw [hnil, List.append_nil] at h
    exact ⟨hnil, h⟩
  · rintro ⟨hnil, h⟩
    rw [hnil, h, List.append_nil]

/-! ## Older writes -/

/-- What holds of values of different shapes, and of values of the same shape if it holds of every part of the first one
and any value, holds of all values. -/
theorem shape_induction {P : Json → Json → Prop}
    (whole : ∀ v w, (v.shape? = none ∨ v.shape? ≠ w.shape?) → P v w)
    (members : ∀ ms rem, (∀ m ∈ ms, ∀ w, P m.2 w) → P (object ms) (object rem))
    (items : ∀ loc rem is js, itemIds? loc = some is → itemIds? rem = some js →
      (∀ v ∈ loc, ∀ w, P v w) → P (array loc) (array rem)) (v w : Json) : P v w := by
  induction hn : v.depth using Nat.strongRecOn generalizing v w with
  | _ n ih =>
    subst hn
    by_cases hne : v.shape? = none ∨ v.shape? ≠ w.shape?
    · exact whole v w hne
    obtain ⟨σ, hv, hw⟩ := exists_shape_of_not hne
    rcases shape?_eq_some hv with ⟨rfl, ms, rfl⟩ | ⟨rfl, loc, rfl, hloc⟩
    · rcases shape?_eq_some hw with ⟨-, rem, rfl⟩ | ⟨hσ, -⟩
      · exact members ms rem fun m hm w => ih _ (depth_lt_of_mem_members hm) m.2 w rfl
      · cases hσ
    · rcases shape?_eq_some hw with ⟨hσ, -⟩ | ⟨-, rem, rfl, hrem⟩
      · cases hσ
      · exact items loc rem _ _ hloc hrem fun v hv w => ih _ (depth_lt_of_mem_items hv) v w rfl

/-- A part into which an older one is merged grows if every merged value does. -/
theorem growsTo_mergeParts (h : ∀ w, GrowsTo v (merge false v w)) (x : Option Json) :
    GrowsTo v ((mergeParts false (some v) x).getD v) := by
  rcases x with _ | w
  · exact GrowsTo.refl v
  · exact h w

theorem growsTo_mergeMembers {rem : List (String × Json)}
    (h : ∀ m ∈ ms, ∀ w, GrowsTo m.2 (merge false m.2 w)) : GrowsTo ms (mergeMembers false ms rem) := by
  induction ms with
  | nil =>
    rw [mergeMembers]
    exact GrowsTo.refl []
  | cons m ms ih =>
    obtain ⟨name, v⟩ := m
    rw [List.forall_mem_cons] at h
    rw [mergeMembers_cons]
    exact (growsTo_member (growsTo_mergeParts h.1 _)).cons (ih h.2)

theorem growsTo_mergeItems (h : ∀ v ∈ loc, ∀ w, GrowsTo v (merge false v w)) :
    GrowsTo loc (mergeItems false loc rem) := by
  induction loc with
  | nil =>
    rw [mergeItems]
    exact GrowsTo.refl []
  | cons v loc ih =>
    rw [List.forall_mem_cons] at h
    rw [mergeItems_cons]
    exact (growsTo_mergeParts h.1 _).cons (ih h.2)

/-- An older write that is merged into a value leaves it as it is or makes it larger. -/
theorem growsTo_merge_false (v w : Json) : GrowsTo v (merge false v w) := by
  induction v, w using shape_induction with
  | whole v w hne => exact Or.inl (merge_false_of_shape?_ne hne)
  | members ms rem ih =>
    rw [merge_object]
    exact growsTo_object ((growsTo_mergeMembers ih).trans (.of_sublist (sublist_merged_members false ms rem)))
  | items loc rem is js hloc hrem ih =>
    rw [merge_array false hloc hrem]
    exact growsTo_array ((growsTo_mergeItems ih).trans (.of_sublist (List.sublist_append_left _ _)))

/-! ## Coverage -/

/-- The first value has, part by part, everything that the second would add to it. -/
inductive Covers : Json → Json → Prop where
  /-- To a value of another shape nothing is added. -/
  | whole {v w : Json} (h : v.shape? = none ∨ v.shape? ≠ w.shape?) : Covers v w
  /-- The first object has members of all names of the second, and they cover those of the second. -/
  | members {ms rem : List (String × Json)} (names : ∀ m ∈ rem, (ms.lookup m.1).isSome)
    (covers : ∀ m ∈ ms, ∀ w, rem.lookup m.1 = some w → Covers m.2 w) : Covers (object ms) (object rem)
  /-- The first array has items of all ids of the second, and they cover those of the second. -/
  | items {loc rem : List Json} {is js : List String} (hloc : itemIds? loc = some is)
    (hrem : itemIds? rem = some js) (ids : js ⊆ is)
    (covers : ∀ v ∈ loc, ∀ w, v.itemId?.bind (findItem? · rem) = some w → Covers v w) :
    Covers (array loc) (array rem)

/-- **What an older write still adds.** It leaves exactly those values as they are that cover it. -/
theorem merge_false_eq_iff : merge false v w = v ↔ Covers v w := by
  constructor
  · induction v, w using shape_induction with
    | whole v w hne => exact fun _ => .whole hne
    | members ms rem ih =>
      intro h
      rw [merge_object, object.injEq, merged_members_eq_iff, mergeMembers_eq_self_iff] at h
      exact .members h.1 fun m hm w hw => ih m hm w (h.2 m hm w hw)
    | items loc rem is js hloc hrem ih =>
      intro h
      rw [merge_array false hloc hrem, array.injEq, merged_items_eq_iff hrem, mergeItems_eq_self_iff] at h
      exact .items hloc hrem h.1 fun v hv w hw => ih v hv w (h.2 v hv w hw)
  · intro h
    induction h with
    | whole hne => exact merge_false_of_shape?_ne hne
    | members names _ ih => rw [merge_object, merged_members_eq_iff.2 ⟨names, mergeMembers_eq_self_iff.2 ih⟩]
    | items hloc hrem ids _ ih =>
      rw [merge_array false hloc hrem, (merged_items_eq_iff hrem).2 ⟨ids, mergeItems_eq_self_iff.2 ih⟩]

instance : DecidableRel Covers := fun _ _ => decidable_of_iff _ merge_false_eq_iff

end DocMesh.Json
