/-
# What is found at a path of a merged document

A path is a list of member names that leads from object to object into a value. As long as the newer one of two merged
values has objects on the way, or nothing any more, what is found at the end of a path is what is found there in the
two values, merged. So the scalars of the newer write win, and what only the older write has is not lost.

Main statements:

* `member?_merge` : the members of merged values, of which the newer one is an object;
* `follow?_merge` : what is found at a path of merged values;
* `Resolver.newer_fields_win` : what becomes of the fields of a document and of a write that is merged into it.
-/
import DocMesh.Proofs.Json.Scalar
import DocMesh.Proofs.Resolver.Parts
import DocMesh.Proofs.Resolver.Replay
import Mathlib.Data.List.Infix

namespace DocMesh

namespace Json

variable {b : Bool} {v w x : Json} {name : String} {path start rest : List String}

/-! ## Paths -/

/-- The value to which a path of member names leads. -/
def follow? (v : Json) : List String → Option Json
  | [] => some v
  | name :: path => (v.member? name).bind fun x => follow? x path

theorem follow?_cons (v : Json) (name : String) (path : List String) :
    v.follow? (name :: path) = (v.member? name).bind (·.follow? path) := rfl

theorem follow?_append (v : Json) (start rest : List String) :
    v.follow? (start ++ rest) = (v.follow? start).bind (·.follow? rest) := by
  induction start generalizing v with
  | nil => rfl
  | cons name start ih =>
    rw [List.cons_append, follow?_cons, follow?_cons]
    rcases v.member? name with _ | x
    · rfl
    · exact ih x

/-- Nothing but objects stands in the way of the path, as far as the value has anything on the way. -/
def Clear (v : Json) (path : List String) : Prop :=
  ∀ start, start <+: path → start ≠ path → ∀ x, v.follow? start = some x → ∃ ms, x = object ms

/-- Only objects have members. -/
theorem exists_object_of_member? (h : v.member? name = some x) : ∃ ms, v = object ms := by
  cases v with
  | object ms => exact ⟨ms, rfl⟩
  | _ => cases h

/-- The way to a value that is found is clear. -/
theorem clear_of_follow? (h : v.follow? path = some w) : v.Clear path := by
  intro start hstart hne x hx
  obtain ⟨rest, rfl⟩ := hstart
  rw [follow?_append, hx, Option.bind_some] at h
  cases rest with
  | nil => exact absurd (List.append_nil start).symm hne
  | cons name rest =>
    rw [follow?_cons] at h
    obtain ⟨y, hy, -⟩ := Option.bind_eq_some_iff.1 h
    exact exists_object_of_member? hy

theorem wellFormed_of_member? (hv : v.WellFormed) (h : v.member? name = some x) : x.WellFormed := by
  obtain ⟨ms, rfl⟩ := exists_object_of_member? h
  exact hv.of_mem_members (mem_of_lookup h)

/-! ## Merged values -/

theorem exists_object_of_shape? (h : v.shape? = some .members) : ∃ ms, v = object ms := by
  rcases shape?_eq_some h with ⟨-, hms⟩ | ⟨hσ, -⟩
  · exact hms
  · cases hσ

/-- The members of an object are its parts. -/
theorem member?_eq_part? (h : v.shape? = some .members) (name : String) : v.member? name = v.part? name := by
  obtain ⟨ms, rfl⟩ := exists_object_of_shape? h
  rfl

/-- Values that are no objects have no members. -/
theorem member?_eq_none (h : v.shape? ≠ some .members) (name : String) : v.member? name = none := by
  cases v with
  | object ms => exact absurd rfl h
  | _ => rfl

/-- A member of merged values, of which the newer one is an object. -/
theorem member?_merge (hwf : w.WellFormed) (h : (if b then w else v).shape? = some .members) (name : String) :
    (merge b v w).member? name = mergeParts b (v.member? name) (w.member? name) := by
  by_cases hshare : v.shape? = some .members ∧ w.shape? = some .members
  · obtain ⟨hv, hw⟩ := hshare
    rw [member?_eq_part? (shape?_merge b hwf hv hw), part?_merge b hwf hv hw, member?_eq_part? hv,
      member?_eq_part? hw]
  · -- the newer value is kept as it is, and the older one has no members
    cases b with
    | true =>
      have hw : w.shape? = some .members := h
      have hv : v.shape? ≠ some .members := fun hv => hshare ⟨hv, hw⟩
      rw [merge_true_of_shape?_ne fun heq => hv (heq.trans hw), member?_eq_none hv]
      rfl
    | false =>
      have hv : v.shape? = some .members := h
      have hw : w.shape? ≠ some .members := fun hw => hshare ⟨hv, hw⟩
      rw [merge_false_of_shape?_ne (Or.inr fun heq => hw (heq.symm.trans hv)), member?_eq_none hw,
        mergeParts_none_right]

theorem Clear.shape?_eq (h : v.Clear (name :: path)) : v.shape? = some .members := by
  obtain ⟨ms, rfl⟩ := h [] List.nil_prefix (List.cons_ne_nil name path).symm v rfl
  rfl

theorem Clear.of_member? (h : v.Clear (name :: path)) (hx : v.member? name = some x) : x.Clear path := by
  intro start hstart hne y hy
  apply h (name :: start) (List.cons_prefix_cons.2 ⟨rfl, hstart⟩) fun heq => hne (List.cons.inj heq).2
  rw [follow?_cons, hx]
  exact hy

/-- **What is found at a path of merged values**, if the way is clear in the newer one: what is found there in the two
values, merged. -/
theorem follow?_merge (hwf : w.WellFormed) (h : (if b then w else v).Clear path) :
    (merge b v w).follow? path = mergeParts b (v.follow? path) (w.follow? path) := by
  induction path generalizing v w with
  | nil => rfl
  | cons name path ih =>
    rw [follow?_cons, member?_merge hwf h.shape?_eq, follow?_cons, follow?_cons]
    rcases hv : v.member? name with _ | x
    · rfl
    · rcases hw : w.member? name with _ | y
      · rw [mergeParts_none_right, Option.bind_none, mergeParts_none_right]
      · have hnewer : (if b then w else v).member? name = some (if b then y else x) := by
          cases b
          · exact hv
          · exact hw
        exact ih (wellFormed_of_member? hwf hw) (h.of_member? hnewer)

/-! ## Newer scalars and older values -/

/-- One zero is there, and the scalar is the other one. -/
def ZerosMeet (x : Option Json) (s : Json) : Prop := ∃ negative, x = some (zero negative) ∧ s = zero (!negative)

theorem shape?_of_isScalar (h : v.isScalar = true) : v.shape? = none := by
  cases v <;> first | rfl | cases h

/-- A newer scalar replaces whatever is there, except the other zero. -/
theorem mergeParts_true_scalar {s : Json} (hs : s.isScalar = true) (x : Option Json) :
    (ZerosMeet x s → mergeParts true x (some s) = x) ∧
      (¬ ZerosMeet x s → mergeParts true x (some s) = some s) := by
  rcases x with _ | x
  · exact ⟨fun ⟨_, hx, _⟩ => (nomatch hx), fun _ => rfl⟩
  · have hmerge : merge true x s = if x.sameScalar s then x else s := by
      apply merge_of_shape?_ne
      rw [shape?_of_isScalar hs]
      exact eq_or_ne _ _
    show (_ → some (merge true x s) = _) ∧ (_ → some (merge true x s) = _)
    rw [hmerge]
    constructor
    · rintro ⟨negative, hx, hzero⟩
      cases hx
      rw [if_pos (sameScalar_iff.2 ⟨rfl, Or.inr ⟨negative, rfl, hzero⟩⟩)]
    · intro hnot
      split
      · rename_i hsame
        obtain ⟨-, rfl | ⟨negative, rfl, hzero⟩⟩ := sameScalar_iff.1 hsame
        · rfl
        · exact absurd ⟨negative, rfl, hzero⟩ hnot
      · rfl

/-- Nothing older replaces a scalar. -/
theorem mergeParts_false_scalar {s : Json} (hs : s.isScalar = true) (y : Option Json) :
    mergeParts false (some s) y = some s := by
  rcases y with _ | y
  · rfl
  · show some (merge false s y) = some s
    rw [merge_false_of_shape?_ne (Or.inl (shape?_of_isScalar hs))]

/-- Scalars of the newer value are found in the merged one. -/
theorem follow?_merge_scalar {s : Json} (hwf : w.WellFormed) (hs : s.isScalar = true)
    (h : (if b then w else v).follow? path = some s) :
    (b = true ∧ ZerosMeet (v.follow? path) s → (merge b v w).follow? path = v.follow? path) ∧
      (¬ (b = true ∧ ZerosMeet (v.follow? path) s) → (merge b v w).follow? path = some s) := by
  rw [follow?_merge hwf (clear_of_follow? h)]
  cases b with
  | true =>
    have hw : w.follow? path = some s := h
    rw [hw]
    simpa using mergeParts_true_scalar hs (v.follow? path)
  | false =>
    have hv : v.follow? path = some s := h
    rw [hv, mergeParts_false_scalar hs]
    simp

/-- What only the older value has is found in the merged one, if the way is clear in the newer one. -/
theorem follow?_merge_older (hwf : w.WellFormed) (hx : (if b then v else w).follow? path = some x)
    (hnone : (if b then w else v).follow? path = none) (h : (if b then w else v).Clear path) :
    (merge b v w).follow? path = some x := by
  rw [follow?_merge hwf h]
  cases b with
  | true =>
    have hv : v.follow? path = some x := hx
    have hw : w.follow? path = none := hnone
    rw [hv, hw, mergeParts_none_right]
  | false =>
    have hv : v.follow? path = none := hnone
    have hw : w.follow? path = some x := hx
    rw [hv, hw]
    rfl

end Json

/-! ## Fields of documents -/

namespace Resolver

open Json

/-- **The newer fields win and the older ones survive.** Let a write be merged into a document, and let `n` be the
content of the newer of the two and `o` that of the older one. What is a scalar in `n` is found at the same path of the
merged document, with one exception: where the write is the newer one and has one of the two zeros, and the document
has the other one there, that one stays. And what `o` has at a path at which `n` has nothing is found there as it is,
if every value that `n` has on the way is an object. -/
theorem newer_fields_win (d : Document) (e : Entry) (he : e.content.WellFormed) (ho : e.operation = .put) :
    ∃ d', recursiveMerge.resolve (some d) e = .apply d' ∧
      let n := if d.updatedAt < e.timestamp then e.content else d.content
      let o := if d.updatedAt < e.timestamp then d.content else e.content
      ∀ path,
        (∀ s, n.follow? path = some s → s.isScalar = true →
          (d.updatedAt < e.timestamp ∧ ZerosMeet (d.content.follow? path) s →
            d'.content.follow? path = d.content.follow? path) ∧
          (¬ (d.updatedAt < e.timestamp ∧ ZerosMeet (d.content.follow? path) s) →
            d'.content.follow? path = some s)) ∧
        (∀ v, o.follow? path = some v → n.follow? path = none → n.Clear path →
          d'.content.follow? path = some v) := by
  refine ⟨mergedDocument d e, resolve_recursiveMerge_put d ho, ?_⟩
  intro n o path
  -- which of the two is newer is what merging is told
  have hnewer : n = if decide (d.updatedAt < e.timestamp) then e.content else d.content := by
    simp only [n, decide_eq_true_eq]
  have holder : o = if decide (d.updatedAt < e.timestamp) then d.content else e.content := by
    simp only [o, decide_eq_true_eq]
  rw [hnewer, holder]
  constructor
  · intro s hs hscalar
    have hfield := follow?_merge_scalar he hscalar hs
    rw [decide_eq_true_eq] at hfield
    exact hfield
  · intro v hv hnone hway
    exact follow?_merge_older he hv hnone hway

/-- A newer write with a number in the place of another, no tag, and a zero in the place of the other one. -/
theorem newer_fields_win_nested :
    let d : Document := ⟨"notes", "x",
      object [("at", object [("n", ofInt 1), ("tags", array ["t"])]), ("z", zero false)], ⟨5, 2, "a"⟩, false⟩
    let e : Entry := .put "notes" "x" (object [("at", object [("n", ofInt 2)]), ("z", zero true)]) ⟨5, 2, "b"⟩
    e.content.WellFormed ∧ e.operation = .put ∧
      ∃ d', recursiveMerge.resolve (some d) e = .apply d' ∧
        d'.content.follow? ["at", "n"] = some (ofInt 2) ∧
        d'.content.follow? ["at", "tags"] = some (array ["t"]) ∧
        d'.content.follow? ["z"] = some (zero false) := by
  intro d e
  have he : e.content.WellFormed := by decide +kernel
  refine ⟨he, rfl, ?_⟩
  obtain ⟨d', hd', hfields⟩ := newer_fields_win d e he rfl
  have hlt : d.updatedAt < e.timestamp := by decide
  refine ⟨d', hd', ?_, ?_, ?_⟩
  · refine ((hfields ["at", "n"]).1 (ofInt 2) (by decide +kernel) rfl).2 ?_
    rintro ⟨-, negative, hd, -⟩
    cases negative <;> revert hd <;> decide +kernel
  · refine (hfields ["at", "tags"]).2 (array ["t"]) (by decide +kernel) (by decide +kernel) ?_
    have hway : ∀ start ∈ ["at", "tags"].inits, start ≠ ["at", "tags"] →
        ∀ x ∈ e.content.follow? start, x.shape? = some .members := by
      decide +kernel
    intro start hstart hne x hx
    rw [if_pos hlt] at hx
    exact exists_object_of_shape? (hway start ((List.mem_inits start _).2 hstart) hne x hx)
  · exact ((hfields ["z"]).1 (zero true) (by decide +kernel) rfl).1 ⟨hlt, false, by decide +kernel, rfl⟩

/-- A newer write of a zero that is not found in the merged document, where the other one stays. -/
theorem newer_zero_lost :
    let d : Document := ⟨"notes", "x", object [("a", zero false)], ⟨1, 0, "a"⟩, false⟩
    let e : Entry := .put "notes" "x" (object [("a", zero true)]) ⟨2, 0, "b"⟩
    d.content.WellFormed ∧ e.content.WellFormed ∧ d.updatedAt < e.timestamp ∧
      e.content.follow? ["a"] = some (zero true) ∧ (zero true).isScalar = true ∧
      ∃ d', recursiveMerge.resolve (some d) e = .apply d' ∧ d'.content.follow? ["a"] ≠ some (zero true) := by
  refine ⟨by decide +kernel, by decide +kernel, by decide, by decide +kernel, rfl, _, rfl, by decide +kernel⟩

end Resolver

end DocMesh
