/-
# Parts of values

What is merged part by part has a shape: it consists of members under their names, or of items under their ids.
Of two values of one shape the parts are merged, name by name and id by id, and the ids that only the second
has come behind those of the first. Of all other pairs one value is kept as it is. A well-formed value with
a shape is determined by its shape, the order of its ids and its parts.

Main statements:

* `merge_of_shape?_ne` : what merging does to values that do not share a shape;
* `part_induction` : what is proved for values that do not share a shape, and from parts to wholes, holds of all values;
* `shape?_merge`, `ids_merge`, `part?_merge` : what it does to values that do;
* `WellFormed.merge` : merging keeps values well-formed;
* `eq_of_part?_eq` : values are determined by their shape, their ids and their parts.
-/
import DocMesh.Proofs.Resolver.Items

namespace DocMesh.Json

variable {b : Bool} {v w x : Json} {id name : String}

/-! ## Shapes -/

/-- What values consist of that are merged part by part. -/
inductive Shape where
  /-- Members under their names. -/
  | members
  /-- Items under their ids. -/
  | items
  deriving DecidableEq

/-- The shape of the value, if it is merged part by part. -/
def shape? : Json → Option Shape
  | object _ => some .members
  | array items => if (itemIds? items).isSome then some .items else none
  | _ => none

/-- The ids of the items, in their order. Members have no order of their own. -/
def ids : Json → List String
  | array items => (itemIds? items).getD []
  | _ => []

/-- Ids of two values, those that only the second has behind those of the first. -/
def addIds (is js : List String) : List String := is ++ js.filter (· ∉ is)

/-- The member or item with the given name or id. -/
def part? (name : String) : Json → Option Json
  | object ms => ms.lookup name
  | array items => findItem? name items
  | _ => none

/-- Nothing is added to ids that have them all. -/
theorem addIds_of_subset {is js : List String} (h : js ⊆ is) : addIds is js = is := by
  have hnone : js.filter (· ∉ is) = [] := by
    rw [List.filter_eq_nil_iff]
    intro i hi
    simp [h hi]
  rw [addIds, hnone, List.append_nil]

theorem subset_addIds (is js : List String) : js ⊆ addIds is js := by
  intro j hj
  by_cases hmem : j ∈ is <;> simp [addIds, hj, hmem]

theorem shape?_array_eq_some {items : List Json} {σ : Shape} (h : (array items).shape? = some σ) :
    σ = .items ∧ itemIds? items = some (array items).ids := by
  show σ = .items ∧ itemIds? items = some ((itemIds? items).getD [])
  have h : (if (itemIds? items).isSome then some Shape.items else none) = some σ := h
  rcases hids : itemIds? items with _ | is
  · rw [hids] at h
    cases h
  · rw [hids] at h
    cases h
    exact ⟨rfl, rfl⟩

/-- Values with a shape are objects, or arrays whose items have ids. -/
theorem shape?_eq_some {σ : Shape} (h : v.shape? = some σ) :
    (σ = .members ∧ ∃ ms, v = object ms) ∨
      (σ = .items ∧ ∃ items, v = array items ∧ itemIds? items = some v.ids) := by
  cases v with
  | object ms =>
    cases h
    exact Or.inl ⟨rfl, ms, rfl⟩
  | array items =>
    obtain ⟨hσ, hids⟩ := shape?_array_eq_some h
    exact Or.inr ⟨hσ, items, rfl, hids⟩
  | null => cases h
  | bool b => cases h
  | number n => cases h
  | string s => cases h

theorem exists_shape_of_not (h : ¬ (v.shape? = none ∨ v.shape? ≠ w.shape?)) :
    ∃ σ, v.shape? = some σ ∧ w.shape? = some σ := by
  obtain ⟨hsome, heq⟩ := not_or.1 h
  obtain ⟨σ, hσ⟩ := Option.ne_none_iff_exists'.1 hsome
  exact ⟨σ, hσ, (not_not.1 heq).symm.trans hσ⟩

/-- Two values that do not share a shape are decided as a whole. -/
theorem merge_of_shape?_ne (b : Bool) (h : v.shape? = none ∨ v.shape? ≠ w.shape?) :
    merge b v w = if v.sameScalar w then v else if b then w else v := by
  by_cases ha : ∃ loc rem, v = array loc ∧ w = array rem
  · obtain ⟨loc, rem, rfl, rfl⟩ := ha
    have hnone : itemIds? loc = none ∨ itemIds? rem = none := by
      by_contra hnot
      obtain ⟨hloc, hrem⟩ := not_or.1 hnot
      have hv : (array loc).shape? = some .items := if_pos (Option.isSome_iff_ne_none.2 hloc)
      have hw : (array rem).shape? = some .items := if_pos (Option.isSome_iff_ne_none.2 hrem)
      rw [hv, hw] at h
      rcases h with h | h
      · cases h
      · exact h rfl
    -- arrays of which one has an item without an id are decided as a whole
    rw [merge]
    rcases hnone with hnone | hnone
    · rw [hnone]
      cases b <;> rfl
    · rw [hnone]
      rcases itemIds? loc with _ | is <;> cases b <;> rfl
  · apply merge_of_ne
    · rintro loc rem rfl rfl
      rcases h with h | h
      · cases h
      · exact h rfl
    · rintro loc rem rfl rfl
      exact ha ⟨loc, rem, rfl, rfl⟩

/-- Nothing older is merged into a value of another shape. -/
theorem merge_false_of_shape?_ne (h : v.shape? = none ∨ v.shape? ≠ w.shape?) : merge false v w = v := by
  rw [merge_of_shape?_ne false h]
  split <;> rfl

/-- A newer value replaces one of another shape. -/
theorem merge_true_of_shape?_ne (h : v.shape? ≠ w.shape?) : merge true v w = w := by
  rw [merge_of_shape?_ne true (Or.inr h)]
  have hscalar : v.sameScalar w = false := by
    by_contra hnot
    apply h
    cases v <;> cases w <;> first | rfl | exact absurd rfl hnot
  rw [hscalar]
  rfl

/-! ## Merged values of one shape -/

section SameShape

variable {σ : Shape}

theorem shape?_merge (b : Bool) (hwf : w.WellFormed) (hv : v.shape? = some σ) (hw : w.shape? = some σ) :
    (merge b v w).shape? = some σ := by
  rcases shape?_eq_some hv with ⟨rfl, loc, rfl⟩ | ⟨rfl, loc, rfl, hloc⟩
  · rcases shape?_eq_some hw with ⟨_, rem, rfl⟩ | ⟨hσ, _⟩
    · rw [merge_object]
      rfl
    · cases hσ
  · rcases shape?_eq_some hw with ⟨hσ, _⟩ | ⟨_, rem, rfl, hrem⟩
    · cases hσ
    · rw [merge_array b hloc hrem]
      have hids := itemIds?_merge_array b hloc hrem fun u hu => hwf.of_mem_items hu
      exact if_pos (Option.isSome_of_eq_some hids)

/-- The new ids of the second value come behind those of the first. -/
theorem ids_merge (b : Bool) (hwf : w.WellFormed) (hv : v.shape? = some σ) (hw : w.shape? = some σ) :
    (merge b v w).ids = addIds v.ids w.ids := by
  rcases shape?_eq_some hv with ⟨rfl, loc, rfl⟩ | ⟨rfl, loc, rfl, hloc⟩
  · rcases shape?_eq_some hw with ⟨_, rem, rfl⟩ | ⟨hσ, _⟩
    · rw [merge_object]
      rfl
    · cases hσ
  · rcases shape?_eq_some hw with ⟨hσ, _⟩ | ⟨_, rem, rfl, hrem⟩
    · cases hσ
    · rw [merge_array b hloc hrem]
      have hids := itemIds?_merge_array b hloc hrem fun u hu => hwf.of_mem_items hu
      show (itemIds? _).getD [] = _
      rw [hids]
      rfl

/-- Values of one shape are merged part by part. -/
theorem part?_merge (b : Bool) (hwf : w.WellFormed) (hv : v.shape? = some σ) (hw : w.shape? = some σ)
    (name : String) : (merge b v w).part? name = mergeParts b (v.part? name) (w.part? name) := by
  rcases shape?_eq_some hv with ⟨rfl, loc, rfl⟩ | ⟨rfl, loc, rfl, hloc⟩
  · rcases shape?_eq_some hw with ⟨_, rem, rfl⟩ | ⟨hσ, _⟩
    · rw [merge_object]
      exact lookup_merge_object b hwf.ascending name
    · cases hσ
  · rcases shape?_eq_some hw with ⟨hσ, _⟩ | ⟨_, rem, rfl, hrem⟩
    · cases hσ
    · rw [merge_array b hloc hrem]
      exact findItem?_merge_array b hloc (fun u hu => hwf.of_mem_items hu) name

/-- Well-formed values are determined by their shape, the order of their ids and their parts. -/
theorem eq_of_part?_eq (hvwf : v.WellFormed) (hwwf : w.WellFormed) (hv : v.shape? = some σ)
    (hw : w.shape? = some σ) (hids : v.ids = w.ids) (h : ∀ name, v.part? name = w.part? name) : v = w := by
  rcases shape?_eq_some hv with ⟨rfl, ms, rfl⟩ | ⟨rfl, xs, rfl, hxs⟩
  · rcases shape?_eq_some hw with ⟨_, ns, rfl⟩ | ⟨hσ, _⟩
    · rw [eq_of_lookup_eq hvwf.ascending hwwf.ascending h]
    · cases hσ
  · rcases shape?_eq_some hw with ⟨hσ, _⟩ | ⟨_, ys, rfl, hys⟩
    · cases hσ
    · rw [← hids] at hys
      rw [eq_of_findItem?_eq hxs hys h]

end SameShape

theorem nodup_ids (v : Json) : v.ids.Nodup := by
  cases v with
  | array items =>
    show ((itemIds? items).getD []).Nodup
    rcases h : itemIds? items with _ | is
    · exact List.nodup_nil
    · exact (itemIds?_eq_some_iff.1 h).2
  | _ => exact List.nodup_nil

/-! ## Parts -/

theorem wellFormed_of_part? (hwf : v.WellFormed) (h : v.part? name = some w) : w.WellFormed := by
  cases v with
  | object ms => exact hwf.of_mem_members (mem_of_lookup h)
  | array items => exact hwf.of_mem_items (mem_of_findItem? h)
  | _ => cases h

theorem depth_lt_of_part? (h : v.part? name = some w) : w.depth < v.depth := by
  cases v with
  | object ms => exact depth_lt_of_mem_members (mem_of_lookup h)
  | array items => exact depth_lt_of_mem_items (mem_of_findItem? h)
  | _ => cases h

/-- What holds of values that do not share a shape, and of values that do if it holds of the parts that both have,
holds of all values. -/
theorem part_induction {P : Json → Json → Prop}
    (whole : ∀ v w, (v.shape? = none ∨ v.shape? ≠ w.shape?) → P v w)
    (parts : ∀ v w σ, v.shape? = some σ → w.shape? = some σ →
      (∀ name x y, v.part? name = some x → w.part? name = some y → P x y) → P v w) (v w : Json) : P v w := by
  -- the parts of the first value nest less deep
  induction hn : v.depth using Nat.strongRecOn generalizing v w with
  | _ n ih =>
    subst hn
    by_cases hne : v.shape? = none ∨ v.shape? ≠ w.shape?
    · exact whole v w hne
    · obtain ⟨σ, hv, hw⟩ := exists_shape_of_not hne
      exact parts v w σ hv hw fun name x y hx _ => ih x.depth (depth_lt_of_part? hx) x y rfl

/-! ## Well-formedness -/

theorem mem_mergeMembers {ms rem : List (String × Json)} {m : String × Json}
    (h : m ∈ mergeMembers b ms rem) :
    ∃ n ∈ ms, m.2 = n.2 ∨ ∃ k ∈ rem, m.2 = merge b n.2 k.2 := by
  induction ms with
  | nil =>
    rw [mergeMembers] at h
    cases h
  | cons n ms ih =>
    obtain ⟨name, v⟩ := n
    rw [mergeMembers_cons] at h
    rcases List.mem_cons.1 h with rfl | h
    · refine ⟨(name, v), List.mem_cons_self, ?_⟩
      rcases hrem : rem.lookup name with _ | w
      · exact Or.inl rfl
      · exact Or.inr ⟨(name, w), mem_of_lookup hrem, rfl⟩
    · obtain ⟨n, hn, hm⟩ := ih h
      exact ⟨n, List.mem_cons_of_mem _ hn, hm⟩

theorem mem_addMembers {loc ms rem : List (String × Json)} {m : String × Json}
    (h : m ∈ addMembers loc ms rem) : m ∈ ms ∨ m ∈ rem := by
  induction rem generalizing ms with
  | nil => exact Or.inl h
  | cons n rem ih =>
    rw [addMembers_cons] at h
    rcases ih h with h | h
    · split at h
      · exact Or.inl h
      · rcases mem_place h with rfl | h
        · exact Or.inr List.mem_cons_self
        · exact Or.inl h
    · exact Or.inr (List.mem_cons_of_mem n h)

theorem mem_mergeItems {loc rem : List Json} (h : x ∈ mergeItems b loc rem) :
    ∃ v ∈ loc, x = v ∨ ∃ w ∈ rem, x = merge b v w := by
  induction loc with
  | nil =>
    rw [mergeItems] at h
    cases h
  | cons v loc ih =>
    rw [mergeItems_cons] at h
    rcases List.mem_cons.1 h with rfl | h
    · refine ⟨v, List.mem_cons_self, ?_⟩
      rcases hrem : v.itemId?.bind (findItem? · rem) with _ | w
      · exact Or.inl rfl
      · obtain ⟨i, _, hw⟩ := Option.bind_eq_some_iff.1 hrem
        exact Or.inr ⟨w, mem_of_findItem? hw, rfl⟩
    · obtain ⟨u, hu, hx⟩ := ih h
      exact ⟨u, List.mem_cons_of_mem v hu, hx⟩

/-- What is decided as a whole is one of the two values. -/
theorem WellFormed.merge_of_shape?_ne (b : Bool) (hv : v.WellFormed) (hw : w.WellFormed)
    (h : v.shape? = none ∨ v.shape? ≠ w.shape?) : (merge b v w).WellFormed := by
  rw [Json.merge_of_shape?_ne b h]
  split
  · exact hv
  · split
    · exact hw
    · exact hv

/-- Merging keeps values well-formed. -/
theorem WellFormed.merge (b : Bool) (hv : v.WellFormed) (hw : w.WellFormed) : (merge b v w).WellFormed := by
  induction hv generalizing w with
  | @object loc hms h ih =>
    by_cases hne : (Json.object loc).shape? = none ∨ (Json.object loc).shape? ≠ w.shape?
    · exact (WellFormed.object hms h).merge_of_shape?_ne b hw hne
    · obtain ⟨σ, hloc, hrem⟩ := exists_shape_of_not hne
      cases hloc
      rcases shape?_eq_some hrem with ⟨_, rem, rfl⟩ | ⟨hσ, _⟩
      · rw [merge_object]
        refine .object (ascending_addMembers loc rem (ascending_mergeMembers b rem hms)) ?_
        intro m hm
        -- a member is local and perhaps merged, or it is a remote one
        rcases mem_addMembers hm with hm | hm
        · obtain ⟨n, hn, heq | ⟨k, hk, heq⟩⟩ := mem_mergeMembers hm
          · rw [heq]
            exact h n hn
          · rw [heq]
            exact ih n hn (hw.of_mem_members hk)
        · exact hw.of_mem_members hm
      · cases hσ
  | @array loc h ih =>
    by_cases hne : (Json.array loc).shape? = none ∨ (Json.array loc).shape? ≠ w.shape?
    · exact (WellFormed.array h).merge_of_shape?_ne b hw hne
    · obtain ⟨σ, hloc, hrem⟩ := exists_shape_of_not hne
      obtain ⟨rfl, hlocIds⟩ := shape?_array_eq_some hloc
      rcases shape?_eq_some hrem with ⟨hσ, _⟩ | ⟨_, rem, rfl, hremIds⟩
      · cases hσ
      · rw [merge_array b hlocIds hremIds]
        refine .array ?_
        intro x hx
        rcases List.mem_append.1 hx with hx | hx
        · obtain ⟨u, hu, rfl | ⟨k, hk, rfl⟩⟩ := mem_mergeItems hx
          · exact h x hu
          · exact ih u hu (hw.of_mem_items hk)
        · exact hw.of_mem_items (List.mem_of_mem_filter hx)
  | null => exact WellFormed.null.merge_of_shape?_ne b hw (Or.inl rfl)
  | bool a => exact (WellFormed.bool a).merge_of_shape?_ne b hw (Or.inl rfl)
  | number n => exact (WellFormed.number n).merge_of_shape?_ne b hw (Or.inl rfl)
  | string s => exact (WellFormed.string s).merge_of_shape?_ne b hw (Or.inl rfl)

end DocMesh.Json
