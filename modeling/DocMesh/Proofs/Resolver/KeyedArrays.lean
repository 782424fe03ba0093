/-
# Arrays whose items have ids

An array whose items have ids, no two of them the same, is merged with another one item by item. The id of an item is
the text of its member `id`, or of `_id` if there is no such member, and the two items that are merged may be named
in different ways. The merged item still has the id that the two share, so the merged array is again one whose
items have ids, and so is whatever comes of merging further such arrays into it.

Main statements:

* `exists_id_member` : what it is for an item to have an id;
* `ids_mergeArrays` : the ids of an array into which others have been merged one after the other;
* `merged_items_keep_ids` : the items of two merged arrays, their order and their ids.
-/
import DocMesh.Proofs.Resolver.Parts

namespace DocMesh.Json

variable {b : Bool} {v w : Json} {xs ys : List Json} {is js : List String} {id : String}

/-! ## Items and their ids -/

/-- An item with an id is an object with a member `id`, or else `_id`, that is a string, a number or a truth value. -/
theorem exists_id_member (h : v.itemId? = some id) :
    ∃ ms u, v = object ms ∧ (ms.lookup "id").or (ms.lookup "_id") = some u ∧ u.idText? = some id := by
  obtain ⟨ms, rfl⟩ := exists_object_of_itemId? h
  rw [itemId?_object] at h
  rcases hm : ms.lookup "id" with _ | u
  · rw [hm] at h
    obtain ⟨u, hu, hid⟩ := Option.bind_eq_some_iff.1 h
    exact ⟨ms, u, rfl, by rw [hm, Option.none_or, hu], hid⟩
  · rw [hm] at h
    exact ⟨ms, u, rfl, by rw [hm, Option.some_or], h⟩

/-! ## One array after the other -/

/-- The value after the given arrays have been merged into it one after the other. -/
def mergeArrays (v : Json) (arrays : List (Bool × List Json)) : Json :=
  arrays.foldl (fun v m => merge m.1 v (array m.2)) v

/-- One more array: its new ids come last. -/
theorem exists_merge_array (b : Bool) (hxs : itemIds? xs = some is) (hys : itemIds? ys = some js)
    (hwf : ∀ y ∈ ys, y.WellFormed) :
    ∃ zs, merge b (array xs) (array ys) = array zs ∧ itemIds? zs = some (addIds is js) ∧
      ∀ id, findItem? id zs = mergeParts b (findItem? id xs) (findItem? id ys) :=
  ⟨_, merge_array b hxs hys, itemIds?_merge_array b hxs hys hwf, findItem?_merge_array b hxs hwf⟩

/-- However many arrays are merged into one another, their items have ids: those of all the arrays, in the order
in which they are first met. -/
theorem ids_mergeArrays (hxs : itemIds? xs = some is) (arrays : List (Bool × List Json))
    (h : ∀ m ∈ arrays, (itemIds? m.2).isSome = true ∧ ∀ w ∈ m.2, w.WellFormed) :
    ∃ zs, mergeArrays (array xs) arrays = array zs ∧
      itemIds? zs = some (arrays.foldl (fun is m => addIds is (array m.2).ids) is) := by
  induction arrays generalizing xs is with
  | nil => exact ⟨xs, rfl, hxs⟩
  | cons m arrays ih =>
    rw [List.forall_mem_cons] at h
    obtain ⟨⟨hsome, hwf⟩, hrest⟩ := h
    obtain ⟨js, hjs⟩ := Option.isSome_iff_exists.1 hsome
    have hids : (array m.2).ids = js := by
      show (itemIds? m.2).getD [] = js
      rw [hjs]
      rfl
    obtain ⟨zs, hzs, hzsIds, -⟩ := exists_merge_array m.1 hxs hjs hwf
    show ∃ us, mergeArrays (merge m.1 (array xs) (array m.2)) arrays = array us ∧ _
    rw [hzs, List.foldl_cons, hids]
    exact ih hzsIds hrest

/-! ## Merged items -/

/-- **Items keep their ids.** Two arrays whose items have ids are merged to one array. Its ids are those of the first
array in their order and then those that only the second one has in theirs, each of them once, and each of its
items is an object with the member that gives its id. Two items of the same id are merged to one that has this id
as well, and the items of ids that only one of the arrays has are in the merged array as they are. Whatever arrays of
this kind are merged into it later, one after the other, the outcome is again such an array. -/
theorem merged_items_keep_ids (b : Bool) (hxs : itemIds? xs = some is) (hys : itemIds? ys = some js)
    (hwf : ∀ y ∈ ys, y.WellFormed) :
    ∃ zs, merge b (array xs) (array ys) = array zs ∧
      zs.map itemId? = (is ++ js.filter (· ∉ is)).map some ∧ (is ++ js.filter (· ∉ is)).Nodup ∧
      (∀ z ∈ zs, ∃ ms v, z = object ms ∧ (ms.lookup "id").or (ms.lookup "_id") = some v ∧
        v.idText?.isSome = true) ∧
      (∀ x ∈ xs, ∀ y ∈ ys, x.itemId? = y.itemId? →
        merge b x y ∈ zs ∧ (merge b x y).itemId? = x.itemId?) ∧
      (∀ x ∈ xs, x.itemId? ∉ ys.map itemId? → x ∈ zs) ∧
      (∀ y ∈ ys, y.itemId? ∉ xs.map itemId? → y ∈ zs) ∧
      ∀ later : List (Bool × List Json),
        (∀ m ∈ later, (itemIds? m.2).isSome = true ∧ ∀ w ∈ m.2, w.WellFormed) →
        ∃ us, mergeArrays (array zs) later = array us ∧
          itemIds? us = some (later.foldl (fun ids m => addIds ids (array m.2).ids) (addIds is js)) := by
  obtain ⟨zs, hzs, hids, hfind⟩ := exists_merge_array b hxs hys hwf
  obtain ⟨hmap, hnodup⟩ := itemIds?_eq_some_iff.1 hids
  refine ⟨zs, hzs, hmap, hnodup, ?_, ?_, ?_, ?_, fun later hlater => ids_mergeArrays hids later hlater⟩
  · intro z hz
    obtain ⟨id, -, hid, -⟩ := findItem?_of_mem hids hz
    obtain ⟨ms, v, hobject, hmember, htext⟩ := exists_id_member hid
    exact ⟨ms, v, hobject, hmember, Option.isSome_of_eq_some htext⟩
  · intro x hx y hy hxy
    obtain ⟨id, -, hid, hfoundx⟩ := findItem?_of_mem hxs hx
    obtain ⟨id', -, hid', hfoundy⟩ := findItem?_of_mem hys hy
    have hsame : id' = id := by
      rw [hxy, hid'] at hid
      exact Option.some.inj hid
    subst hsame
    have hfound := hfind id'
    rw [hfoundx, hfoundy] at hfound
    exact ⟨mem_of_findItem? hfound, (itemId?_of_findItem? hfound).trans hid.symm⟩
  · intro x hx hnew
    obtain ⟨id, -, hid, hfoundx⟩ := findItem?_of_mem hxs hx
    have hnone : findItem? id ys = none := findItem?_eq_none_iff.2 (hid ▸ hnew)
    have hfound := hfind id
    rw [hfoundx, hnone] at hfound
    exact mem_of_findItem? hfound
  · intro y hy hnew
    obtain ⟨id, -, hid, hfoundy⟩ := findItem?_of_mem hys hy
    have hnone : findItem? id xs = none := findItem?_eq_none_iff.2 (hid ▸ hnew)
    have hfound := hfind id
    rw [hfoundy, hnone] at hfound
    exact mem_of_findItem? hfound

/-- Two arrays that share an item, which one names by a text and the other by a number, and a third array. -/
theorem merged_items_keep_ids_three :
    let xs : List Json := [object [("_id", "7"), ("v", ofInt 1)], object [("id", bool true)]]
    let ys : List Json := [object [("id", "9")], object [("id", ofInt 7), ("w", ofInt 2)]]
    let ws : List Json := [object [("id", "3")], object [("_id", "9"), ("v", array [])]]
    itemIds? xs = some ["7", "true"] ∧ itemIds? ys = some ["9", "7"] ∧ (∀ y ∈ ys, y.WellFormed) ∧
      ∃ zs, merge true (array xs) (array ys) = array zs ∧ zs.map itemId? = ["7", "true", "9"].map some ∧
        object [("_id", "7"), ("id", ofInt 7), ("v", ofInt 1), ("w", ofInt 2)] ∈ zs ∧
        object [("id", bool true)] ∈ zs ∧ object [("id", "9")] ∈ zs ∧
        ∃ us, mergeArrays (array zs) [(false, ws)] = array us ∧ itemIds? us = some ["7", "true", "9", "3"] := by
  intro xs ys ws
  have hxs : itemIds? xs = some ["7", "true"] := by decide +kernel
  have hys : itemIds? ys = some ["9", "7"] := by decide +kernel
  have hwf : ∀ y ∈ ys, y.WellFormed := by decide +kernel
  obtain ⟨zs, hzs, hids, -, -, hshared, hfirst, hsecond, hlater⟩ := merged_items_keep_ids true hxs hys hwf
  refine ⟨hxs, hys, hwf, zs, hzs, hids, ?_, ?_, ?_, ?_⟩
  · have hx : object [("_id", "7"), ("v", ofInt 1)] ∈ xs := List.mem_cons_self
    have hy : object [("id", ofInt 7), ("w", ofInt 2)] ∈ ys := List.mem_cons_of_mem _ List.mem_cons_self
    exact (hshared _ hx _ hy (by decide +kernel)).1
  · exact hfirst _ (by decide +kernel) (by decide +kernel)
  · exact hsecond _ (by decide +kernel) (by decide +kernel)
  · exact hlater [(false, ws)] (by decide +kernel)

end DocMesh.Json
