/-
# Reading a list item by item

A list is read exactly if each of its items is, and then it is read as the list of what the items are read as.

Main statements:

* `mapM_eq_some_iff` : when a list is read, and as which list;
* `exists_of_mem_mapM` : what is in the list that is read comes from an item.
-/
import Mathlib.Data.List.Basic

namespace DocMesh

variable {α β : Type} {f : α → Option β} {xs : List α} {ys : List β} {y : β}

theorem mapM_eq_some_iff : xs.mapM f = some ys ↔ xs.map f = ys.map some := by
  induction xs generalizing ys with
  | nil => cases ys <;> simp
  | cons x xs ih =>
    rw [List.mapM_cons, List.map_cons]
    rcases hx : f x with _ | y
    · cases ys <;> simp
    · cases ys with
      | nil => rcases hxs : xs.mapM f with _ | zs <;> simp
      | cons z zs =>
        rw [List.map_cons, List.cons.injEq, ← ih]
        rcases hxs : xs.mapM f with _ | us <;> simp

theorem length_of_mapM (h : xs.mapM f = some ys) : ys.length = xs.length := by
  have hlength := congrArg List.length (mapM_eq_some_iff.1 h)
  rw [List.length_map, List.length_map] at hlength
  exact hlength.symm

theorem exists_of_mem_mapM (h : xs.mapM f = some ys) (hy : y ∈ ys) : ∃ x ∈ xs, f x = some y := by
  have hmem : some y ∈ xs.map f := mapM_eq_some_iff.1 h ▸ List.mem_map_of_mem hy
  exact List.mem_map.1 hmem

/-- What was written item by item is read back. -/
theorem mapM_map_of_inverse {write : β → α} (h : ∀ b, f (write b) = some b) (ys : List β) :
    (ys.map write).mapM f = some ys := by
  rw [mapM_eq_some_iff, List.map_map]
  exact List.map_congr_left fun b _ => h b

end DocMesh
