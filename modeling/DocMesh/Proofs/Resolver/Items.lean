/-
# Items and members of merged values

Where all items of an array have ids, the array is a map from ids to items that keeps an order. Merging keeps the
ids of items, so merged arrays are such maps again; and it goes item by item, as it goes member by member
in objects.

Main statements:

* `itemId?_merge` : two items of one id are merged to an item of this id;
* `findItem?_mergeItems`, `lookup_mergeMembers` : what merging does to one item or one member;
* `eq_of_findItem?_eq` : items with ids are determined by the order of the ids and what is found under them.
-/
import DocMesh.Proofs.Json.WellFormed
import DocMesh.Proofs.Traversal
import DocMesh.Resolver.Merge

namespace DocMesh.Json

variable {b : Bool} {v w : Json} {items loc rem xs ys : List Json} {ids : List String} {id name : String}
  {ms ns : List (String × Json)}

/-! ## Arrays as maps -/

/-- The ids of items are theirs, in their order, and distinct. -/
theorem itemIds?_eq_some_iff :
    itemIds? items = some ids ↔ items.map itemId? = ids.map some ∧ ids.Nodup := by
  rw [itemIds?]
  rcases h : items.mapM itemId? with _ | ls
  · constructor
    · intro hfalse
      cases hfalse
    · rintro ⟨hmap, _⟩
      rw [mapM_eq_some_iff.2 hmap] at h
      cases h
  · dsimp only
    rw [mapM_eq_some_iff] at h
    have hsome : Function.Injective (some : String → Option String) := fun _ _ h => Option.some.inj h
    rw [h, (List.map_injective_iff.2 hsome).eq_iff]
    by_cases hls : ls.Nodup
    · rw [if_pos hls, Option.some.injEq]
      constructor
      · rintro rfl
        exact ⟨rfl, hls⟩
      · exact And.left
    · rw [if_neg hls]
      constructor
      · intro hfalse
        cases hfalse
      · rintro ⟨rfl, hids⟩
        exact absurd hids hls

theorem mem_of_findItem? (h : findItem? id items = some v) : v ∈ items := List.mem_of_find?_eq_some h

theorem itemId?_of_findItem? (h : findItem? id items = some v) : v.itemId? = some id := by
  have htest := List.find?_some h
  rwa [beq_iff_eq] at htest

theorem findItem?_eq_none_iff : findItem? id items = none ↔ some id ∉ items.map itemId? := by
  rw [findItem?, List.find?_eq_none, List.mem_map]
  simp only [beq_iff_eq, not_exists, not_and]

theorem isSome_findItem?_iff (h : itemIds? items = some ids) : (findItem? id items).isSome = true ↔ id ∈ ids := by
  rw [← Option.ne_none_iff_isSome, ne_eq, findItem?_eq_none_iff, (itemIds?_eq_some_iff.1 h).1, not_not]
  simp

theorem findItem?_cons (id : String) (v : Json) (vs : List Json) :
    findItem? id (v :: vs) = if v.itemId? = some id then some v else findItem? id vs := by
  rw [findItem?, List.find?_cons]
  by_cases h : v.itemId? = some id
  · rw [if_pos h, h, beq_self_eq_true]
  · rw [if_neg h, beq_false_of_ne h]
    rfl

/-- Items with ids are what is found under their ids. -/
theorem filterMap_findItem? (h : itemIds? xs = some ids) : ids.filterMap (findItem? · xs) = xs := by
  obtain ⟨hmap, hnodup⟩ := itemIds?_eq_some_iff.1 h
  clear h
  induction ids generalizing xs with
  | nil =>
    rw [List.map_nil, List.map_eq_nil_iff] at hmap
    rw [hmap]
    rfl
  | cons i is ih =>
    rw [List.map_cons, List.map_eq_cons_iff] at hmap
    obtain ⟨x, xs, rfl, hx, hmap⟩ := hmap
    obtain ⟨hi, hnodup⟩ := List.nodup_cons.1 hnodup
    have hfirst : findItem? i (x :: xs) = some x := by rw [findItem?_cons, if_pos hx]
    have hrest : is.filterMap (findItem? · (x :: xs)) = is.filterMap (findItem? · xs) := by
      apply List.filterMap_congr
      intro k hk
      have hne : x.itemId? ≠ some k := by
        rw [hx]
        rintro ⟨⟩
        exact hi hk
      rw [findItem?_cons, if_neg hne]
    rw [List.filterMap_cons, hfirst, hrest, ih hmap hnodup]

/-- An item is found under its id. -/
theorem findItem?_of_mem (h : itemIds? items = some ids) (hv : v ∈ items) :
    ∃ id ∈ ids, v.itemId? = some id ∧ findItem? id items = some v := by
  rw [← filterMap_findItem? h, List.mem_filterMap] at hv
  obtain ⟨i, hi, hfound⟩ := hv
  exact ⟨i, hi, itemId?_of_findItem? hfound, hfound⟩

/-- Items with ids are determined by the order of the ids and what is found under them. -/
theorem eq_of_findItem?_eq (hxs : itemIds? xs = some ids) (hys : itemIds? ys = some ids)
    (h : ∀ id, findItem? id xs = findItem? id ys) : xs = ys :=
  calc xs = ids.filterMap (findItem? · xs) := (filterMap_findItem? hxs).symm
    _ = ids.filterMap (findItem? · ys) := List.filterMap_congr fun id _ => h id
    _ = ys := filterMap_findItem? hys

/-! ## Members -/

/-- One member or item after merging: what only one side has is taken as it is. -/
def mergeParts (b : Bool) : Option Json → Option Json → Option Json
  | none, w => w
  | some v, none => some v
  | some v, some w => some (merge b v w)

@[simp] theorem mergeParts_none_right (b : Bool) (v : Option Json) : mergeParts b v none = v := by
  cases v <;> rfl

theorem mergeMembers_cons (b : Bool) (name : String) (v : Json) (ms rem : List (String × Json)) :
    mergeMembers b ((name, v) :: ms) rem
      = (name, (mergeParts b (some v) (rem.lookup name)).getD v) :: mergeMembers b ms rem := by
  rw [mergeMembers]
  rcases rem.lookup name with _ | w <;> rfl

theorem map_fst_mergeMembers (b : Bool) (ms rem : List (String × Json)) :
    (mergeMembers b ms rem).map Prod.fst = ms.map Prod.fst := by
  induction ms with
  | nil => rw [mergeMembers]
  | cons m ms ih =>
    obtain ⟨name, v⟩ := m
    rw [mergeMembers_cons, List.map_cons, List.map_cons, ih]

/-- A member of the local object after merging. -/
theorem lookup_mergeMembers (b : Bool) (ms rem : List (String × Json)) (h : ms.lookup name = some v) :
    (mergeMembers b ms rem).lookup name = mergeParts b (some v) (rem.lookup name) := by
  induction ms with
  | nil => cases h
  | cons m ms ih =>
    obtain ⟨n, u⟩ := m
    rw [mergeMembers_cons, List.lookup_cons]
    rw [List.lookup_cons] at h
    by_cases hn : name = n
    · subst hn
      rw [beq_self_eq_true] at h ⊢
      cases h
      rcases rem.lookup name with _ | w <;> rfl
    · have hbeq : (name == n) = false := beq_false_of_ne hn
      rw [hbeq] at h ⊢
      exact ih h

theorem lookup_mergeMembers_eq_none (b : Bool) (rem : List (String × Json)) (h : ms.lookup name = none) :
    (mergeMembers b ms rem).lookup name = none := by
  rw [lookup_eq_none_iff] at h ⊢
  intro m hm heq
  have hname : m.1 ∈ (mergeMembers b ms rem).map Prod.fst := List.mem_map_of_mem hm
  rw [map_fst_mergeMembers, List.mem_map] at hname
  obtain ⟨n, hn, hnm⟩ := hname
  exact h n hn (hnm.trans heq)

/-- Places the members of the remote object that the local one does not have among the given ones. -/
def addMembers (loc ms rem : List (String × Json)) : List (String × Json) :=
  rem.foldl (fun ms m => if (loc.lookup m.1).isSome then ms else place Prod.fst m ms) ms

theorem addMembers_cons (loc ms : List (String × Json)) (m : String × Json) (rem : List (String × Json)) :
    addMembers loc ms (m :: rem)
      = addMembers loc (if (loc.lookup m.1).isSome then ms else place Prod.fst m ms) rem := rfl

theorem merge_object (b : Bool) (loc rem : List (String × Json)) :
    merge b (object loc) (object rem) = object (addMembers loc (mergeMembers b loc rem) rem) := by
  rw [merge]
  rfl

/-- A member after all remote ones have been placed. -/
theorem lookup_addMembers {loc rem : List (String × Json)} (ms : List (String × Json))
    (h : Ascending Prod.fst rem) (name : String) :
    (addMembers loc ms rem).lookup name
      = if (loc.lookup name).isSome then ms.lookup name
        else (rem.lookup name).or (ms.lookup name) := by
  induction rem generalizing ms with
  | nil =>
    show ms.lookup name = _
    rw [List.lookup_nil, Option.none_or]
    split <;> rfl
  | cons m rem ih =>
    obtain ⟨hm, hrem⟩ := List.pairwise_cons.1 h
    rw [addMembers_cons, ih _ hrem]
    by_cases hname : m.1 = name
    · -- no later member has this name
      have hnone : rem.lookup name = none := by
        rw [lookup_eq_none_iff]
        intro n hn heq
        exact ne_of_compare_eq_lt (hm n hn) (hname.trans heq.symm)
      obtain ⟨n, v⟩ := m
      cases hname
      rw [hnone, Option.none_or, List.lookup_cons_self, Option.some_or]
      by_cases hl : (loc.lookup n).isSome
      · rw [if_pos hl, if_pos hl, if_pos hl]
      · rw [if_neg hl, if_neg hl, if_neg hl, lookup_place, if_pos rfl]
    · have hbeq : (name == m.1) = false := beq_false_of_ne fun heq => hname heq.symm
      have hms : (if (loc.lookup m.1).isSome then ms else place Prod.fst m ms).lookup name
          = ms.lookup name := by
        split
        · rfl
        · rw [lookup_place, if_neg hname]
      rw [hms, List.lookup_cons, hbeq]

theorem ascending_mergeMembers (b : Bool) (rem : List (String × Json)) (h : Ascending Prod.fst ms) :
    Ascending Prod.fst (mergeMembers b ms rem) := by
  have hpair : ((mergeMembers b ms rem).map Prod.fst).Pairwise fun m n => compare m n = .lt := by
    rw [map_fst_mergeMembers, List.pairwise_map]
    exact h
  rwa [List.pairwise_map] at hpair

theorem ascending_addMembers (loc rem : List (String × Json)) (h : Ascending Prod.fst ms) :
    Ascending Prod.fst (addMembers loc ms rem) := by
  induction rem generalizing ms with
  | nil => exact h
  | cons m rem ih =>
    rw [addMembers_cons]
    apply ih
    split
    · exact h
    · exact h.place m

/-- A member of merged objects. -/
theorem lookup_merge_object (b : Bool) {loc rem : List (String × Json)} (hrem : Ascending Prod.fst rem)
    (name : String) :
    (addMembers loc (mergeMembers b loc rem) rem).lookup name
      = mergeParts b (loc.lookup name) (rem.lookup name) := by
  rw [lookup_addMembers _ hrem]
  rcases hloc : loc.lookup name with _ | v
  · rw [lookup_mergeMembers_eq_none b rem hloc, Option.or_none]
    rfl
  · exact lookup_mergeMembers b loc rem hloc

/-! ## Ids of merged items -/

/-- Values that are not two objects or two arrays are decided as a whole. -/
theorem merge_of_ne (b : Bool) (ho : ∀ loc rem, v = object loc → w ≠ object rem)
    (ha : ∀ loc rem, v = array loc → w ≠ array rem) :
    merge b v w = if v.sameScalar w then v else if b then w else v := by
  rw [merge]
  · exact ho
  · exact ha

/-- Merging two scalars that serve as the same id gives one of the two. -/
theorem idText?_merge (b : Bool) (hv : v.idText? = some id) (hw : w.idText? = some id) :
    (merge b v w).idText? = some id := by
  rw [merge_of_ne b (by rintro loc rem rfl; cases hv) (by rintro loc rem rfl; cases hv)]
  split
  · exact hv
  · split
    · exact hw
    · exact hv

theorem idText?_mergeParts (b : Bool) {x y : Option Json} (hx : x.bind idText? = some id)
    (hy : y.bind idText? = some id) : (mergeParts b x y).bind idText? = some id := by
  obtain ⟨v, rfl, hv⟩ := Option.bind_eq_some_iff.1 hx
  obtain ⟨w, rfl, hw⟩ := Option.bind_eq_some_iff.1 hy
  exact idText?_merge b hv hw

theorem itemId?_object (ms : List (String × Json)) :
    (object ms).itemId?
      = if (ms.lookup "id").isSome then (ms.lookup "id").bind idText?
        else (ms.lookup "_id").bind idText? := by
  rw [itemId?, member?, member?]
  rcases ms.lookup "id" with _ | v <;> rfl

/-- Only objects have ids. -/
theorem exists_object_of_itemId? (h : v.itemId? = some id) : ∃ ms, v = object ms := by
  cases v with
  | object ms => exact ⟨ms, rfl⟩
  | null => cases h
  | bool b => cases h
  | number n => cases h
  | string s => cases h
  | array items => cases h

/-- Two items of one id are merged to an item of this id. -/
theorem itemId?_merge (b : Bool) (hwf : w.WellFormed) (hv : v.itemId? = some id) (hw : w.itemId? = some id) :
    (merge b v w).itemId? = some id := by
  obtain ⟨ms, rfl⟩ := exists_object_of_itemId? hv
  obtain ⟨ns, rfl⟩ := exists_object_of_itemId? hw
  rw [merge_object, itemId?_object, lookup_merge_object b hwf.ascending,
    lookup_merge_object b hwf.ascending]
  rw [itemId?_object] at hv hw
  -- a member `id` on either side decides, and is kept or merged with another of the same text
  rcases hm : ms.lookup "id" with _ | v
  · rcases hn : ns.lookup "id" with _ | w
    · rw [hm] at hv
      rw [hn] at hw
      exact idText?_mergeParts b hv hw
    · rw [hn] at hw
      exact hw
  · rcases hn : ns.lookup "id" with _ | w
    · rw [hm] at hv
      exact hv
    · rw [hm] at hv
      rw [hn] at hw
      have hmerged : (merge b v w).idText? = some id := idText?_merge b hv hw
      exact hmerged

/-! ## Merged arrays -/

theorem mergeItems_cons (b : Bool) (v : Json) (loc rem : List Json) :
    mergeItems b (v :: loc) rem
      = (mergeParts b (some v) (v.itemId?.bind (findItem? · rem))).getD v :: mergeItems b loc rem := by
  rw [mergeItems]
  rcases v.itemId?.bind (findItem? · rem) with _ | w <;> rfl

/-- Local items keep their ids when remote ones are merged into them. -/
theorem map_itemId?_mergeItems (b : Bool) (loc : List Json) (hrem : ∀ w ∈ rem, w.WellFormed) :
    (mergeItems b loc rem).map itemId? = loc.map itemId? := by
  induction loc with
  | nil => rw [mergeItems]
  | cons v loc ih =>
    rw [mergeItems_cons, List.map_cons, List.map_cons, ih]
    congr 1
    rcases hv : v.itemId? with _ | i
    · exact hv
    · show ((mergeParts b (some v) (findItem? i rem)).getD v).itemId? = some i
      rcases hw : findItem? i rem with _ | w
      · exact hv
      · exact itemId?_merge b (hrem w (mem_of_findItem? hw)) hv (itemId?_of_findItem? hw)

/-- An item of the local array after merging. -/
theorem findItem?_mergeItems (b : Bool) (hrem : ∀ w ∈ rem, w.WellFormed) (h : findItem? id loc = some v) :
    findItem? id (mergeItems b loc rem) = mergeParts b (some v) (findItem? id rem) := by
  induction loc with
  | nil => cases h
  | cons u loc ih =>
    have hids := map_itemId?_mergeItems b (u :: loc) hrem
    rw [mergeItems_cons, List.map_cons, List.map_cons, List.cons.injEq] at hids
    rw [mergeItems_cons, findItem?_cons, hids.1]
    rw [findItem?_cons] at h
    by_cases hu : u.itemId? = some id
    · rw [if_pos hu] at h ⊢
      cases h
      rw [hu]
      show some ((mergeParts b (some v) (findItem? id rem)).getD v) = _
      rcases findItem? id rem with _ | w <;> rfl
    · rw [if_neg hu] at h ⊢
      exact ih h

/-- The items of the remote array that the local one does not have. -/
def newItems (ids : List String) (rem : List Json) : List Json :=
  rem.filter fun item => !(item.itemId?.any ids.contains)

theorem merge_array (b : Bool) {locIds remIds : List String} (hloc : itemIds? loc = some locIds)
    (hrem : itemIds? rem = some remIds) :
    merge b (array loc) (array rem) = array (mergeItems b loc rem ++ newItems locIds rem) := by
  rw [merge, hloc, hrem]
  rfl

theorem map_itemId?_newItems (ids : List String) {remIds : List String}
    (h : rem.map itemId? = remIds.map some) :
    (newItems ids rem).map itemId? = (remIds.filter (· ∉ ids)).map some := by
  induction remIds generalizing rem with
  | nil =>
    rw [List.map_nil, List.map_eq_nil_iff] at h
    rw [h]
    rfl
  | cons i remIds ih =>
    rw [List.map_cons, List.map_eq_cons_iff] at h
    obtain ⟨w, rem, rfl, hw, hrem⟩ := h
    have ih := ih hrem
    rw [newItems] at ih
    rw [newItems, List.filter_cons, List.filter_cons, hw]
    by_cases hi : i ∈ ids
    · simp [hi, ih]
    · simp [hi, ih, hw]

theorem findItem?_newItems (id : String) (ids : List String) (rem : List Json) :
    findItem? id (newItems ids rem) = if id ∈ ids then none else findItem? id rem := by
  rw [findItem?, newItems, List.find?_filter]
  by_cases h : id ∈ ids
  · rw [if_pos h, List.find?_eq_none]
    intro w _
    by_cases hw : w.itemId? = some id
    · simp [hw, h]
    · simp [hw]
  · rw [if_neg h, findItem?]
    congr 1
    funext w
    by_cases hw : w.itemId? = some id
    · simp [hw, h]
    · simp [hw]

theorem findItem?_append (id : String) (xs ys : List Json) :
    findItem? id (xs ++ ys) = (findItem? id xs).or (findItem? id ys) := List.find?_append

/-- An item of merged arrays. -/
theorem findItem?_merge_array (b : Bool) {locIds : List String} (hloc : itemIds? loc = some locIds)
    (hrem : ∀ w ∈ rem, w.WellFormed) (id : String) :
    findItem? id (mergeItems b loc rem ++ newItems locIds rem)
      = mergeParts b (findItem? id loc) (findItem? id rem) := by
  have hmem : (findItem? id loc).isSome = true ↔ id ∈ locIds := isSome_findItem?_iff hloc
  rw [findItem?_append, findItem?_newItems]
  -- an id of the local array is found among its items, all others among the new ones
  rcases hf : findItem? id loc with _ | v
  · have hnone : findItem? id (mergeItems b loc rem) = none := by
      rw [findItem?_eq_none_iff, map_itemId?_mergeItems b loc hrem, ← findItem?_eq_none_iff]
      exact hf
    have hnot : id ∉ locIds := fun hin => nomatch (hf ▸ hmem.2 hin)
    rw [hnone, Option.none_or, if_neg hnot]
    rfl
  · have hin : id ∈ locIds := hmem.1 (Option.isSome_of_eq_some hf)
    rw [findItem?_mergeItems b hrem hf, if_pos hin, Option.or_none]

/-- The ids of merged arrays: first those of the local one, then the new ones of the remote one. -/
theorem itemIds?_merge_array (b : Bool) {locIds remIds : List String} (hloc : itemIds? loc = some locIds)
    (hrem : itemIds? rem = some remIds) (hwf : ∀ w ∈ rem, w.WellFormed) :
    itemIds? (mergeItems b loc rem ++ newItems locIds rem)
      = some (locIds ++ remIds.filter (· ∉ locIds)) := by
  obtain ⟨hlocMap, hlocNodup⟩ := itemIds?_eq_some_iff.1 hloc
  obtain ⟨hremMap, hremNodup⟩ := itemIds?_eq_some_iff.1 hrem
  rw [itemIds?_eq_some_iff]
  constructor
  · rw [List.map_append, List.map_append, map_itemId?_mergeItems b loc hwf, hlocMap,
      map_itemId?_newItems locIds hremMap]
  · rw [List.nodup_append]
    refine ⟨hlocNodup, hremNodup.filter _, ?_⟩
    rintro i hi j hj rfl
    rw [List.mem_filter, decide_eq_true_iff] at hj
    exact hj.2 hi

end DocMesh.Json
