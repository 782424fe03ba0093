/-
# Looking up in ordered collections

An ordered collection is a finite map, and everything that is said of one is said through `find?`: what
`insert` and `insertNew` do to it, which elements are listed, and that two collections in which the same is
found are equal.

Main statements:

* `find?_insert`, `find?_foldl_insert`, `find?_insertNew`, `find?_foldl_insertNew` : what is found after additions;
* `mem_insert`, `mem_foldl_insert`, `mem_insertNew` : what is listed after additions;
* `size_insertNew` : by how much an addition makes a collection greater;
* `rangeFrom_eq_filter` : what the range from a key on holds;
* `eq_of_mem_iff` : a collection is determined by its elements;
* `eq_of_find?_eq` : a collection is determined by what is found in it.
-/
import DocMesh.Ordered
import Mathlib.Data.String.Basic

namespace DocMesh

variable {α κ : Type} [Ord κ] {key : α → κ}

/-! ## Keys -/

section Keys

variable [Std.LawfulEqOrd κ]

/-- Keys that are compared as less are different. -/
theorem ne_of_compare_eq_lt {a b : κ} (h : compare a b = .lt) : a ≠ b := by
  rintro rfl
  simp at h

/-- No text comes before the empty one. -/
theorem not_lt_empty (text : String) : ¬ text < "" := by
  rw [String.lt_iff_toList_lt]
  exact List.not_lt_nil _

/-- The test by which elements are looked up. -/
theorem compare_beq_eq [DecidableEq κ] (a b : κ) : (compare a b == .eq) = decide (a = b) := by
  rw [Bool.eq_iff_iff, beq_iff_eq, Std.LawfulEqCmp.compare_eq_iff_eq, decide_eq_true_iff]

/-- An element of an ascending list is found under its key. -/
theorem Ascending.find?_eq_some [DecidableEq κ] {xs : List α} (h : Ascending key xs) {x : α}
    (hx : x ∈ xs) : xs.find? (fun y => compare (key y) (key x) == .eq) = some x := by
  simp only [compare_beq_eq]
  induction xs with
  | nil => cases hx
  | cons y ys ih =>
    obtain ⟨hy, hys⟩ := List.pairwise_cons.1 h
    rcases List.mem_cons.1 hx with rfl | hx
    · simp
    · have hne : key y ≠ key x := ne_of_compare_eq_lt (hy x hx)
      simpa [hne] using ih hys hx

end Keys

/-! ## Lists -/

/-- Where the elements that pass a test come first, the first of them are all of them. -/
theorem takeWhile_eq_filter {p : α → Bool} {xs : List α} (h : xs.Pairwise fun a b => p b → p a) :
    xs.takeWhile p = xs.filter p := by
  induction xs with
  | nil => rfl
  | cons x xs ih =>
    obtain ⟨hx, hxs⟩ := List.pairwise_cons.1 h
    rw [List.takeWhile_cons, List.filter_cons, ih hxs]
    by_cases hp : p x = true
    · rw [if_pos hp, if_pos hp]
    · rw [if_neg hp, if_neg hp]
      exact (List.filter_eq_nil_iff.2 fun y hy hpy => hp (hx y hy hpy)).symm

/-- Where the elements that pass a test come first, those behind the first of them fail it. -/
theorem dropWhile_eq_filter {p : α → Bool} {xs : List α} (h : xs.Pairwise fun a b => p b → p a) :
    xs.dropWhile p = xs.filter (!p ·) := by
  induction xs with
  | nil => rfl
  | cons x xs ih =>
    obtain ⟨hx, hxs⟩ := List.pairwise_cons.1 h
    rw [List.dropWhile_cons]
    by_cases hp : p x = true
    · rw [if_pos hp, ih hxs, List.filter_cons_of_neg (by simp [hp])]
    · rw [if_neg hp]
      refine (List.filter_eq_self.2 ?_).symm
      intro y hy
      rcases List.mem_cons.1 hy with rfl | hy
      · simpa using hp
      · simpa using fun hpy => hp (hx y hy hpy)

/-- An element with a key greater than all others is placed at the end. -/
theorem place_of_lt [Std.TransOrd κ] {x : α} {xs : List α} (h : ∀ y ∈ xs, compare (key y) (key x) = .lt) :
    place key x xs = xs ++ [x] := by
  induction xs with
  | nil => rfl
  | cons y ys ih =>
    have hgt : compare (key x) (key y) = .gt := Std.OrientedCmp.gt_iff_lt.2 (h y List.mem_cons_self)
    rw [place, hgt]
    dsimp only
    rw [ih fun z hz => h z (List.mem_cons_of_mem y hz), List.cons_append]

/-- Elements that ascend are placed one behind the other. -/
theorem foldl_place [Std.TransOrd κ] {xs ys : List α} (h : Ascending key (xs ++ ys)) :
    ys.foldl (fun xs y => place key y xs) xs = xs ++ ys := by
  induction ys generalizing xs with
  | nil => exact (List.append_nil xs).symm
  | cons y ys ih =>
    have hlast : ∀ x ∈ xs, compare (key x) (key y) = .lt := fun x hx =>
      (List.pairwise_append.1 h).2.2 x hx y List.mem_cons_self
    rw [List.append_cons] at h
    rw [List.foldl_cons, place_of_lt hlast, ih h, List.append_cons xs y ys]

section Lists

variable [Std.LawfulEqOrd κ] [Std.TransOrd κ] [DecidableEq κ]

/-- After `place` the placed element is found under its key, and all else as before. -/
theorem find?_place (x : α) (k : κ) (xs : List α) :
    (place key x xs).find? (fun y => compare (key y) k == .eq)
      = if key x = k then some x else xs.find? (fun y => compare (key y) k == .eq) := by
  simp only [compare_beq_eq]
  induction xs with
  | nil => by_cases hk : key x = k <;> simp [place, hk]
  | cons y ys ih =>
    rw [place]
    split
    · by_cases hk : key x = k <;> simp [hk]
    · rename_i hxy
      have hxy := Std.LawfulEqCmp.eq_of_compare hxy
      by_cases hk : key x = k
      · simp [hk]
      · simp [hk, ← hxy]
    · rename_i hxy
      have hyx : key y ≠ key x := ne_of_compare_eq_lt (Std.OrientedCmp.gt_iff_lt.1 hxy)
      rw [List.find?_cons, List.find?_cons, ih]
      by_cases hk : key x = k
      · simp [← hk, hyx]
      · simp [hk]

/-- After `placeNew` the element found before under the same key is found, or else the placed one, and all other
elements as before. -/
theorem find?_placeNew (x : α) (k : κ) {xs : List α} (h : Ascending key xs) :
    (placeNew key x xs).find? (fun y => compare (key y) k == .eq)
      = if key x = k then some ((xs.find? (fun y => compare (key y) k == .eq)).getD x)
        else xs.find? (fun y => compare (key y) k == .eq) := by
  simp only [compare_beq_eq]
  induction xs with
  | nil => by_cases hk : key x = k <;> simp [placeNew, hk]
  | cons y ys ih =>
    obtain ⟨hy, hys⟩ := List.pairwise_cons.1 h
    rw [placeNew]
    split
    · rename_i hxy
      by_cases hk : key x = k
      · -- everything behind `x` has a greater key
        have hnone : (y :: ys).find? (fun y => decide (key y = k)) = none := by
          rw [List.find?_eq_none]
          intro z hz
          rw [decide_eq_true_iff, ← hk]
          rcases List.mem_cons.1 hz with rfl | hz
          · exact (ne_of_compare_eq_lt hxy).symm
          · exact (ne_of_compare_eq_lt (Std.TransCmp.lt_trans hxy (hy z hz))).symm
        rw [hnone]
        simp [hk]
      · simp [hk]
    · rename_i hxy
      have hxy := Std.LawfulEqCmp.eq_of_compare hxy
      by_cases hk : key x = k
      · simp [hk, ← hxy]
      · simp [hk]
    · rename_i hxy
      have hyx : key y ≠ key x := ne_of_compare_eq_lt (Std.OrientedCmp.gt_iff_lt.1 hxy)
      rw [List.find?_cons, List.find?_cons, ih hys]
      by_cases hk : key x = k
      · simp [← hk, hyx]
      · simp [hk]

end Lists

/-! ## Collections -/

namespace Ordered

variable {s t : Ordered key} {x y : α} {k : κ}

theorem mem_of_find? (h : s.find? k = some x) : x ∈ s.toList := List.mem_of_find?_eq_some h

section Found

variable [Std.LawfulEqOrd κ]

/-- What is found under a key has that key. -/
theorem key_of_find? (h : s.find? k = some x) : key x = k := by
  have h := List.find?_some h
  exact Std.LawfulEqCmp.eq_of_compare (beq_iff_eq.1 h)

variable [DecidableEq κ]

/-- An element is found under its key. -/
theorem find?_of_mem (h : x ∈ s.toList) : s.find? (key x) = some x := s.ascending.find?_eq_some h

theorem mem_iff_find? : x ∈ s.toList ↔ s.find? (key x) = some x := ⟨find?_of_mem, mem_of_find?⟩

theorem find?_eq_none_iff : s.find? k = none ↔ ∀ x ∈ s.toList, key x ≠ k := by
  rw [find?, List.find?_eq_none]
  simp only [compare_beq_eq, decide_eq_true_iff, ne_eq]

/-- No two elements have the same key. -/
theorem eq_of_key_eq (hx : x ∈ s.toList) (hy : y ∈ s.toList) (h : key x = key y) : x = y := by
  have hxy := find?_of_mem hx
  rw [h, find?_of_mem hy] at hxy
  exact (Option.some.inj hxy).symm

/-- Among the elements that satisfy `p` the key of an element is found if the element does. -/
theorem contains_filter_of_mem (h : x ∈ s.toList) (p : α → Bool) : (s.filter p).contains (key x) = p x := by
  by_cases hp : p x = true
  · have hmem : x ∈ (s.filter p).toList := List.mem_filter.2 ⟨h, hp⟩
    rw [contains, find?_of_mem hmem, hp]
    rfl
  · have hnone : (s.filter p).find? (key x) = none := by
      rw [find?_eq_none_iff]
      intro y hy heq
      obtain ⟨hy, hpy⟩ := List.mem_filter.1 hy
      rw [eq_of_key_eq hy h heq] at hpy
      exact hp hpy
    rw [contains, hnone, Option.isSome_none, Bool.eq_false_iff.2 hp]

end Found

variable [Std.TransOrd κ]

/-- From a key on there are the elements whose keys are not less. -/
theorem rangeFrom_eq_filter (s : Ordered key) (k : κ) :
    s.rangeFrom k = s.toList.filter fun x => compare (key x) k != .lt := by
  refine dropWhile_eq_filter (s.ascending.imp ?_)
  intro x y hxy hy
  exact beq_iff_eq.2 (Std.TransCmp.lt_trans hxy (beq_iff_eq.1 hy))

/-- An element with a key greater than all others is added at the end. -/
theorem toList_insertNew_of_lt (h : ∀ y ∈ s.toList, compare (key y) (key x) = .lt) :
    (s.insertNew x).toList = s.toList ++ [x] := by
  show placeNew key x s.toList = _
  generalize s.toList = ys at h ⊢
  induction ys with
  | nil => rfl
  | cons y ys ih =>
    have hgt : compare (key x) (key y) = .gt := Std.OrientedCmp.gt_iff_lt.2 (h y List.mem_cons_self)
    rw [placeNew, hgt]
    dsimp only
    rw [ih fun z hz => h z (List.mem_cons_of_mem y hz), List.cons_append]

/-- A test that the new element fails finds the same elements as before. -/
theorem filter_insertNew {p : α → Bool} (h : p x = false) :
    (s.insertNew x).toList.filter p = s.toList.filter p := by
  show (placeNew key x s.toList).filter p = _
  induction s.toList with
  | nil => simp [placeNew, h]
  | cons y ys ih =>
    rw [placeNew]
    split
    · rw [List.filter_cons_of_neg (by simp [h])]
    · rfl
    · rw [List.filter_cons, List.filter_cons, ih]

variable [Std.LawfulEqOrd κ]

/-- A collection is determined by its elements. -/
theorem eq_of_mem_iff (h : ∀ x, x ∈ s.toList ↔ x ∈ t.toList) : s = t := by
  -- lists of the same elements without repetition are permutations, and only one of them ascends
  have hs : s.toList.Nodup := s.ascending.imp fun h heq => ne_of_compare_eq_lt h (congrArg key heq)
  have ht : t.toList.Nodup := t.ascending.imp fun h heq => ne_of_compare_eq_lt h (congrArg key heq)
  have hperm : s.toList.Perm t.toList := (List.perm_ext_iff_of_nodup hs ht).2 h
  apply Ordered.ext
  refine hperm.eq_of_pairwise ?_ s.ascending t.ascending
  intro a b _ _ hab hba
  exact absurd hba (Std.OrientedCmp.not_lt_of_lt hab)

variable [DecidableEq κ]

/-- A collection is determined by what is found in it. -/
theorem eq_of_find?_eq (h : ∀ k, s.find? k = t.find? k) : s = t := by
  apply eq_of_mem_iff
  intro x
  constructor
  · intro hx
    exact mem_of_find? ((h (key x)).symm.trans (find?_of_mem hx))
  · intro hx
    exact mem_of_find? ((h (key x)).trans (find?_of_mem hx))

@[simp] theorem find?_insert (s : Ordered key) (x : α) (k : κ) :
    (s.insert x).find? k = if key x = k then some x else s.find? k := find?_place x k s.toList

@[simp] theorem find?_insertNew (s : Ordered key) (x : α) (k : κ) :
    (s.insertNew x).find? k = if key x = k then some ((s.find? k).getD x) else s.find? k :=
  find?_placeNew x k s.ascending

/-- `insert` adds an element, and removes the one with the same key. -/
theorem mem_insert : y ∈ (s.insert x).toList ↔ y = x ∨ y ∈ s.toList ∧ key y ≠ key x := by
  rw [mem_iff_find?, find?_insert, mem_iff_find?]
  by_cases hxy : key x = key y
  · simp [hxy, eq_comm]
  · have hne : y ≠ x := fun heq => hxy (congrArg key heq).symm
    simp [hxy, hne, Ne.symm hxy]

/-- Of elements with different keys that are added one after the other all are there, and what was there before under
other keys. -/
theorem mem_foldl_insert {xs : List α} (h : xs.Pairwise fun x y => key x ≠ key y) (s : Ordered key) :
    y ∈ (xs.foldl insert s).toList ↔ y ∈ xs ∨ y ∈ s.toList ∧ ∀ x ∈ xs, key x ≠ key y := by
  induction xs generalizing s with
  | nil => simp
  | cons x xs ih =>
    obtain ⟨hx, hxs⟩ := List.pairwise_cons.1 h
    rw [List.foldl_cons, ih hxs, mem_insert, List.mem_cons, List.forall_mem_cons]
    constructor
    · rintro (hy | ⟨rfl | ⟨hy, hne⟩, hkeys⟩)
      · exact Or.inl (Or.inr hy)
      · exact Or.inl (Or.inl rfl)
      · exact Or.inr ⟨hy, Ne.symm hne, hkeys⟩
    · rintro ((rfl | hy) | ⟨hy, hne, hkeys⟩)
      · exact Or.inr ⟨Or.inl rfl, fun z hz => Ne.symm (hx z hz)⟩
      · exact Or.inl hy
      · exact Or.inr ⟨Or.inr ⟨hy, Ne.symm hne⟩, hkeys⟩

/-- What is found after additions: the last of the added elements with the key, or else what was there before. -/
theorem find?_foldl_insert (s : Ordered key) (xs : List α) (k : κ) :
    (xs.foldl insert s).find? k = (xs.reverse.find? fun x => key x = k).or (s.find? k) := by
  induction xs generalizing s with
  | nil => rfl
  | cons x xs ih =>
    rw [List.foldl_cons, ih, find?_insert, List.reverse_cons, List.find?_append, Option.or_assoc]
    by_cases hk : key x = k <;> simp [hk]

/-- Under the key of an element that is added there is one afterwards. -/
theorem exists_mem_foldl_insert {xs : List α} (hx : x ∈ xs) (s : Ordered key) :
    ∃ y ∈ (xs.foldl insert s).toList, key y = key x := by
  have hfound : (xs.reverse.find? fun y => key y = key x).isSome := by
    rw [List.find?_isSome]
    exact ⟨x, List.mem_reverse.2 hx, decide_eq_true rfl⟩
  obtain ⟨y, hy⟩ := Option.isSome_iff_exists.1 hfound
  have hy' : (xs.foldl insert s).find? (key x) = some y := by rw [find?_foldl_insert, hy, Option.some_or]
  exact ⟨y, mem_of_find? hy', key_of_find? hy'⟩

/-- `insertNew` adds an element with a new key, and changes nothing if the key is taken. -/
theorem mem_insertNew :
    y ∈ (s.insertNew x).toList ↔ y ∈ s.toList ∨ (y = x ∧ s.find? (key x) = none) := by
  constructor
  · intro h
    have hy := find?_of_mem h
    rw [find?_insertNew] at hy
    by_cases hxy : key x = key y
    · rw [if_pos hxy, ← hxy] at hy
      rcases hf : s.find? (key x) with _ | z
      · rw [hf] at hy
        exact Or.inr ⟨(Option.some.inj hy).symm, rfl⟩
      · rw [hf] at hy
        rw [← Option.some.inj hy]
        exact Or.inl (mem_of_find? hf)
    · rw [if_neg hxy] at hy
      exact Or.inl (mem_of_find? hy)
  · rintro (h | ⟨rfl, h⟩)
    · apply mem_of_find? (k := key y)
      rw [find?_insertNew, find?_of_mem h]
      by_cases hxy : key x = key y <;> simp [hxy]
    · apply mem_of_find? (k := key y)
      rw [find?_insertNew, if_pos rfl, h]
      rfl

/-- `insertNew` changes nothing if the key is taken. -/
theorem insertNew_of_find? (h : s.find? (key x) = some y) : s.insertNew x = s := by
  apply eq_of_find?_eq
  intro k
  rw [find?_insertNew]
  split
  · rename_i hk
    rw [← hk, h]
    rfl
  · rfl

/-- `insertNew` does not add an element twice. -/
theorem insertNew_of_mem (h : x ∈ s.toList) : s.insertNew x = s := insertNew_of_find? (find?_of_mem h)

/-- `insertNew` makes the collection greater by one if the key is new, and else not. -/
theorem size_insertNew (s : Ordered key) (x : α) :
    (s.insertNew x).size = if s.contains (key x) then s.size else s.size + 1 := by
  rcases hf : s.find? (key x) with _ | y
  · rw [contains, hf, Option.isSome_none, if_neg Bool.false_ne_true]
    rw [find?_eq_none_iff] at hf
    show (placeNew key x s.toList).length = s.toList.length + 1
    generalize s.toList = ys at hf
    induction ys with
    | nil => rfl
    | cons y ys ih =>
      rw [List.forall_mem_cons] at hf
      rw [placeNew]
      split
      · rfl
      · rename_i heq
        exact absurd (Std.LawfulEqCmp.eq_of_compare heq).symm hf.1
      · rw [List.length_cons, List.length_cons, ih hf.2]
  · rw [contains, hf, Option.isSome_some, if_pos rfl, insertNew_of_find? hf]

/-- What is added one after the other is found if its key was new: the element that was there first, or else the first
of those that are added. -/
theorem find?_foldl_insertNew (s : Ordered key) (xs : List α) (k : κ) :
    (xs.foldl insertNew s).find? k = (s.find? k).or (xs.find? fun x => key x = k) := by
  induction xs generalizing s with
  | nil => simp
  | cons x xs ih =>
    rw [List.foldl_cons, ih, find?_insertNew, List.find?_cons]
    by_cases hk : key x = k
    · rcases s.find? k with _ | y <;> simp [hk]
    · simp [hk]

end Ordered

end DocMesh
