/-
# Ordered collections

Lists kept strictly ascending by a key of their elements. Such a list serves as a finite map from keys
to elements: every element has its own key, the order of listing is the order of the keys, and two
collections hold the same elements exactly when they are equal.

The order of keys is the one given by `Ord`; `Std.TransOrd` says that it is a total order up to `.eq`.
-/

namespace DocMesh

variable {α κ : Type} [Ord κ]

/-! ## Ascending lists -/

/-- The keys of the list ascend strictly. -/
def Ascending (key : α → κ) (xs : List α) : Prop :=
  xs.Pairwise fun a b => compare (key a) (key b) = .lt

instance (key : α → κ) (xs : List α) : Decidable (Ascending key xs) :=
  inferInstanceAs (Decidable (xs.Pairwise _))

/-- Puts `x` at its place in an ascending list, instead of an element of the same key. -/
def place (key : α → κ) (x : α) : List α → List α
  | [] => [x]
  | y :: ys =>
    match compare (key x) (key y) with
    | .lt => x :: y :: ys
    | .eq => x :: ys
    | .gt => y :: place key x ys

/-- Puts `x` at its place in an ascending list, unless an element of the same key is there. -/
def placeNew (key : α → κ) (x : α) : List α → List α
  | [] => [x]
  | y :: ys =>
    match compare (key x) (key y) with
    | .lt => x :: y :: ys
    | .eq => y :: ys
    | .gt => y :: placeNew key x ys

theorem mem_place {key : α → κ} {x z : α} {xs : List α} (h : z ∈ place key x xs) :
    z = x ∨ z ∈ xs := by
  induction xs with
  | nil => simpa [place] using h
  | cons y ys ih => grind [place]

theorem mem_placeNew {key : α → κ} {x z : α} {xs : List α} (h : z ∈ placeNew key x xs) :
    z = x ∨ z ∈ xs := by
  induction xs with
  | nil => simpa [placeNew] using h
  | cons y ys ih => grind [placeNew]

theorem Ascending.place [Std.TransOrd κ] {key : α → κ} (x : α) {xs : List α}
    (h : Ascending key xs) : Ascending key (place key x xs) := by
  induction xs with
  | nil => simp [DocMesh.place, Ascending]
  | cons y ys ih =>
    have ⟨hy, hys⟩ := List.pairwise_cons.1 h
    unfold DocMesh.place
    split
    · rename_i hxy
      refine List.pairwise_cons.2 ⟨?_, h⟩
      intro z hz
      rcases List.mem_cons.1 hz with rfl | hz
      · exact hxy
      · exact Std.TransCmp.lt_trans hxy (hy z hz)
    · rename_i hxy
      exact List.pairwise_cons.2 ⟨fun z hz => Std.TransCmp.lt_of_eq_of_lt hxy (hy z hz), hys⟩
    · rename_i hxy
      refine List.pairwise_cons.2 ⟨?_, ih hys⟩
      intro z hz
      rcases mem_place hz with rfl | hz
      · exact Std.OrientedCmp.gt_iff_lt.1 hxy
      · exact hy z hz

theorem Ascending.placeNew [Std.TransOrd κ] {key : α → κ} (x : α) {xs : List α}
    (h : Ascending key xs) : Ascending key (placeNew key x xs) := by
  induction xs with
  | nil => simp [DocMesh.placeNew, Ascending]
  | cons y ys ih =>
    have ⟨hy, hys⟩ := List.pairwise_cons.1 h
    unfold DocMesh.placeNew
    split
    · rename_i hxy
      refine List.pairwise_cons.2 ⟨?_, h⟩
      intro z hz
      rcases List.mem_cons.1 hz with rfl | hz
      · exact hxy
      · exact Std.TransCmp.lt_trans hxy (hy z hz)
    · exact h
    · rename_i hxy
      refine List.pairwise_cons.2 ⟨?_, ih hys⟩
      intro z hz
      rcases mem_placeNew hz with rfl | hz
      · exact Std.OrientedCmp.gt_iff_lt.1 hxy
      · exact hy z hz

/-! ## Ordered collections -/

/-- A collection of elements with distinct keys, listed in ascending order of the keys. -/
structure Ordered (key : α → κ) where
  /-- The elements, ascending by key. -/
  toList : List α := []
  /-- The keys ascend strictly. -/
  ascending : Ascending key toList := by exact List.Pairwise.nil

namespace Ordered

variable {key : α → κ}

instance : EmptyCollection (Ordered key) := ⟨{}⟩

instance : Inhabited (Ordered key) := ⟨∅⟩

/-- Two ordered collections with the same elements are equal. -/
@[ext] theorem ext {s t : Ordered key} (h : s.toList = t.toList) : s = t := by
  cases s; cases t; congr

instance [DecidableEq α] : DecidableEq (Ordered key) := fun s t =>
  decidable_of_iff (s.toList = t.toList) ⟨ext, fun h => h ▸ rfl⟩

/-- The number of elements. -/
def size (s : Ordered key) : Nat := s.toList.length

/-- The element with key `k`, if there is one. -/
def find? (s : Ordered key) (k : κ) : Option α :=
  s.toList.find? fun x => compare (key x) k == .eq

/-- Is there an element with key `k`? -/
def contains (s : Ordered key) (k : κ) : Bool := (s.find? k).isSome

/-- The elements from key `k` on, ascending. -/
def rangeFrom (s : Ordered key) (k : κ) : List α := s.toList.dropWhile fun x => compare (key x) k == .lt

/-- Adds `x`, instead of an element of the same key. -/
def insert [Std.TransOrd κ] (s : Ordered key) (x : α) : Ordered key :=
  ⟨place key x s.toList, s.ascending.place x⟩

/-- Adds `x`, unless there is an element of the same key. -/
def insertNew [Std.TransOrd κ] (s : Ordered key) (x : α) : Ordered key :=
  ⟨placeNew key x s.toList, s.ascending.placeNew x⟩

/-- Keeps the elements that satisfy `p`. -/
def filter (s : Ordered key) (p : α → Bool) : Ordered key :=
  ⟨s.toList.filter p, s.ascending.filter p⟩

/-- Removes the element with key `k`. -/
def erase (s : Ordered key) (k : κ) : Ordered key :=
  s.filter fun x => compare (key x) k != .eq

/-- Adds the elements one after the other; of two with the same key the later one stays. -/
def ofList [Std.TransOrd κ] (xs : List α) : Ordered key :=
  xs.foldl insert ∅

end Ordered

end DocMesh
