/-
# When merges commute

A replica may merge two writes into a document in either order. `Commute` says of a value and two others that this
makes no difference. The law of this module is that it is enough to know this of single writes: if merges commute
pairwise where they are merged into `m`, they commute where they are merged into `m` after another of them. So
what is known of two or three writes reaches all others.

Main statements:

* `commute_iff` : merges into values of one shape commute exactly if they do part by part, and their ids do;
* `Commute.merge` : merges that commute pairwise still commute after one of them.
-/
import DocMesh.Proofs.Resolver.Parts

namespace DocMesh.Json

/-! ## Ids -/

section Ids

variable {is js ks : List String}

theorem filter_not_mem_addIds (is js ks : List String) :
    ks.filter (· ∉ addIds is js) = (ks.filter (· ∉ is)).filter (· ∉ js.filter (· ∉ is)) := by
  rw [List.filter_filter]
  apply List.filter_congr
  intro i _
  by_cases hi : i ∈ is
  · simp [addIds, hi]
  · by_cases hj : i ∈ js <;> simp [addIds, hi, hj]

theorem addIds_addIds (is js ks : List String) :
    addIds (addIds is js) ks = is ++ addIds (js.filter (· ∉ is)) (ks.filter (· ∉ is)) := by
  rw [addIds, filter_not_mem_addIds, addIds, addIds, List.append_assoc]

/-- Ids to which those of a prefix are added. -/
theorem addIds_of_prefix (h : is <+: js) (hjs : js.Nodup) :
    addIds is js = js ∧ addIds js is = js := by
  obtain ⟨ks, rfl⟩ := h
  constructor
  · rw [addIds, List.filter_append]
    have hnone : is.filter (· ∉ is) = [] := by
      rw [List.filter_eq_nil_iff]
      intro i hi
      simp [hi]
    have hall : ks.filter (· ∉ is) = ks := by
      rw [List.filter_eq_self]
      intro i hi
      have hne : i ∉ is := fun hmem => (List.nodup_append.1 hjs).2.2 i hmem i hi rfl
      simp [hne]
    rw [hnone, hall, List.nil_append]
  · exact addIds_of_subset (List.subset_append_left is ks)

/-- The order in which ids are added makes no difference exactly if the new ids of one are a prefix of the new ids
of the other. -/
theorem addIds_comm_iff (hjs : js.Nodup) (hks : ks.Nodup) :
    addIds (addIds is js) ks = addIds (addIds is ks) js
      ↔ js.filter (· ∉ is) <+: ks.filter (· ∉ is) ∨ ks.filter (· ∉ is) <+: js.filter (· ∉ is) := by
  rw [addIds_addIds, addIds_addIds, List.append_cancel_left_eq]
  constructor
  · intro h
    have hj : js.filter (· ∉ is) <+: addIds (js.filter (· ∉ is)) (ks.filter (· ∉ is)) :=
      List.prefix_append _ _
    have hk : ks.filter (· ∉ is) <+: addIds (ks.filter (· ∉ is)) (js.filter (· ∉ is)) :=
      List.prefix_append _ _
    -- both are prefixes of the list that comes of either order
    rw [← h] at hk
    exact List.prefix_or_prefix_of_prefix hj hk
  · rintro (h | h)
    · obtain ⟨hl, hr⟩ := addIds_of_prefix h (hks.filter _)
      rw [hl, hr]
    · obtain ⟨hl, hr⟩ := addIds_of_prefix h (hjs.filter _)
      rw [hl, hr]

/-- If the order of two additions makes no difference, it makes none after a third. -/
theorem addIds_comm_addIds (hjs : js.Nodup) (hks : ks.Nodup) (ls : List String)
    (h : addIds (addIds is js) ks = addIds (addIds is ks) js) :
    addIds (addIds (addIds is ls) js) ks = addIds (addIds (addIds is ls) ks) js := by
  rw [addIds_comm_iff hjs hks] at h ⊢
  rw [filter_not_mem_addIds, filter_not_mem_addIds]
  rcases h with h | h
  · exact Or.inl (h.filter _)
  · exact Or.inr (h.filter _)

end Ids

/-! ## Places of values of one shape -/

/-- What is found at one place of a document: nothing, or a well-formed value. -/
def Fit (m : Option Json) : Prop := ∀ v ∈ m, v.WellFormed

/-- Nothing, or a well-formed value of the given shape. -/
structure Shaped (σ : Shape) (m : Option Json) : Prop where
  fit : Fit m
  shape : ∀ v ∈ m, v.shape? = some σ

/-- The ids at a place. -/
def idsAt (m : Option Json) : List String := (m.map ids).getD []

variable {b : Bool} {σ : Shape} {m v w t : Option Json}

theorem fit_some {x : Json} (h : x.WellFormed) : Fit (some x) := by
  rintro y hy
  cases hy
  exact h

theorem shaped_some {x : Json} (h : x.WellFormed) (hx : x.shape? = some σ) : Shaped σ (some x) where
  fit := fit_some h
  shape := by
    rintro y hy
    cases hy
    exact hx

theorem shaped_none (σ : Shape) : Shaped σ none where
  fit := fun _ hx => nomatch hx
  shape := fun _ hx => nomatch hx

theorem Fit.mergeParts (b : Bool) (hv : Fit v) (hw : Fit w) : Fit (mergeParts b v w) := by
  rcases v with _ | x
  · exact hw
  · rcases w with _ | y
    · exact hv
    · rintro z hz
      cases hz
      exact (hv x rfl).merge b (hw y rfl)

theorem Fit.part (hv : Fit v) (name : String) : Fit (v.bind (part? name)) := by
  intro y hy
  obtain ⟨x, rfl, hx⟩ := Option.bind_eq_some_iff.1 hy
  exact wellFormed_of_part? (hv x rfl) hx

theorem Shaped.mergeParts (b : Bool) (hv : Shaped σ v) (hw : Shaped σ w) : Shaped σ (mergeParts b v w) where
  fit := hv.fit.mergeParts b hw.fit
  shape := by
    rcases v with _ | x
    · exact hw.shape
    · rcases w with _ | y
      · exact hv.shape
      · rintro z hz
        cases hz
        exact shape?_merge b (hw.fit y rfl) (hv.shape x rfl) (hw.shape y rfl)

theorem nodup_idsAt (m : Option Json) : (idsAt m).Nodup := by
  rcases m with _ | v
  · exact List.nodup_nil
  · exact nodup_ids v

theorem idsAt_mergeParts (b : Bool) (hv : Shaped σ v) (hw : Shaped σ w) :
    idsAt (mergeParts b v w) = addIds (idsAt v) (idsAt w) := by
  rcases v with _ | x
  · show idsAt w = [] ++ (idsAt w).filter (· ∉ [])
    simp
  · rcases w with _ | y
    · show x.ids = x.ids ++ []
      rw [List.append_nil]
    · exact ids_merge b (hw.fit y rfl) (hv.shape x rfl) (hw.shape y rfl)

theorem part_mergeParts (b : Bool) (hv : Shaped σ v) (hw : Shaped σ w) (name : String) :
    (mergeParts b v w).bind (part? name)
      = Json.mergeParts b (v.bind (part? name)) (w.bind (part? name)) := by
  rcases v with _ | x
  · rfl
  · rcases w with _ | y
    · exact (mergeParts_none_right b (x.part? name)).symm
    · exact part?_merge b (hw.fit y rfl) (hv.shape x rfl) (hw.shape y rfl) name

theorem isSome_mergeParts (b : Bool) (v w : Option Json) :
    (mergeParts b v w).isSome = (v.isSome || w.isSome) := by
  cases v <;> cases w <;> rfl

/-- Places of one shape are determined by whether there is something, by its ids and by its parts. -/
theorem eq_of_parts_eq (hv : Shaped σ v) (hw : Shaped σ w) (hsome : v.isSome = w.isSome)
    (hids : idsAt v = idsAt w) (h : ∀ name, v.bind (part? name) = w.bind (part? name)) : v = w := by
  rcases v with _ | x
  · rcases w with _ | y
    · rfl
    · cases hsome
  · rcases w with _ | y
    · cases hsome
    · rw [eq_of_part?_eq (hv.fit x rfl) (hw.fit y rfl) (hv.shape x rfl) (hw.shape y rfl) hids h]

/-! ## Commuting merges -/

/-- It makes no difference whether the older write `v` is merged into `m` before `w` or after it. `b` says whether `w`
is newer than what is there. -/
def Commute (b : Bool) (m v w : Option Json) : Prop :=
  mergeParts b (mergeParts false m v) w = mergeParts false (mergeParts b m w) v

/-- The ids after two merges. -/
theorem idsAt_mergeParts_mergeParts (a b : Bool) (hm : Shaped σ m) (hv : Shaped σ v) (hw : Shaped σ w) :
    idsAt (mergeParts b (mergeParts a m v) w) = addIds (addIds (idsAt m) (idsAt v)) (idsAt w) := by
  rw [idsAt_mergeParts b (hm.mergeParts a hv) hw, idsAt_mergeParts a hm hv]

/-- A part after two merges. -/
theorem part_mergeParts_mergeParts (a b : Bool) (hm : Shaped σ m) (hv : Shaped σ v) (hw : Shaped σ w)
    (name : String) :
    (mergeParts b (mergeParts a m v) w).bind (part? name)
      = mergeParts b (mergeParts a (m.bind (part? name)) (v.bind (part? name))) (w.bind (part? name)) := by
  rw [part_mergeParts b (hm.mergeParts a hv) hw, part_mergeParts a hm hv]

/-- Merges into values of one shape commute exactly if they do part by part, and their ids do. -/
theorem commute_iff (hm : Shaped σ m) (hv : Shaped σ v) (hw : Shaped σ w) :
    Commute b m v w ↔
      addIds (addIds (idsAt m) (idsAt v)) (idsAt w) = addIds (addIds (idsAt m) (idsAt w)) (idsAt v) ∧
      ∀ name, Commute b (m.bind (part? name)) (v.bind (part? name)) (w.bind (part? name)) := by
  constructor
  · intro h
    rw [Commute] at h
    constructor
    · rw [← idsAt_mergeParts_mergeParts false b hm hv hw, h, idsAt_mergeParts_mergeParts b false hm hw hv]
    · intro name
      rw [Commute, ← part_mergeParts_mergeParts false b hm hv hw, h,
        part_mergeParts_mergeParts b false hm hw hv]
  · rintro ⟨hids, hparts⟩
    refine eq_of_parts_eq ((hm.mergeParts false hv).mergeParts b hw) ((hm.mergeParts b hw).mergeParts false hv)
      ?_ ?_ ?_
    · simp only [isSome_mergeParts]
      rw [Bool.or_assoc, Bool.or_assoc, Bool.or_comm v.isSome]
    · rw [idsAt_mergeParts_mergeParts false b hm hv hw, idsAt_mergeParts_mergeParts b false hm hw hv, hids]
    · intro name
      have hpart := hparts name
      rw [Commute] at hpart
      rw [part_mergeParts_mergeParts false b hm hv hw, part_mergeParts_mergeParts b false hm hw hv, hpart]

theorem commute_none_left (b : Bool) (m w : Option Json) : Commute b m none w := by
  rw [Commute, mergeParts_none_right, mergeParts_none_right]

theorem commute_none_right (b : Bool) (m v : Option Json) : Commute b m v none := by
  rw [Commute, mergeParts_none_right, mergeParts_none_right]

/-! ## Values of different shapes -/

/-- Merging an older value into one with a shape keeps the shape. -/
theorem shape?_merge_false {x y : Json} (hy : y.WellFormed) (hx : x.shape? = some σ) :
    (merge false x y).shape? = some σ := by
  by_cases h : y.shape? = some σ
  · exact shape?_merge false hy hx h
  · rw [merge_false_of_shape?_ne (Or.inr fun heq => h (heq.symm.trans hx))]
    exact hx

/-- A value without a shape changes nothing as an older write. -/
theorem merge_false_of_shape?_eq_none {x y : Json} (hy : y.shape? = none) : merge false x y = x := by
  apply merge_false_of_shape?_ne
  by_cases h : x.shape? = none
  · exact Or.inl h
  · exact Or.inr fun heq => h (heq.trans hy)

/-- Where an older write of another shape is merged into a value with a shape, merges commute if they did before. -/
theorem commute_some_of_ne {x y z : Json} {m : Json} (hm : m.shape? = some σ) (hx : x.shape? = some σ)
    (hy : y.WellFormed) (hz : z.WellFormed) (hne : y.shape? ≠ some σ ∨ z.shape? ≠ some σ)
    (h : Commute b (some m) (some y) (some z)) : Commute b (some x) (some y) (some z) := by
  have hyσ : ∀ u : Json, u.shape? = some σ → y.shape? ≠ some σ → merge false u y = u := by
    intro u hu hne
    exact merge_false_of_shape?_ne (Or.inr fun heq => hne (heq.symm.trans hu))
  by_cases hzσ : z.shape? = some σ
  · -- nothing of `y` comes into a value of the shape, with `z` or without it
    have hyne : y.shape? ≠ some σ := by
      rcases hne with hne | hne
      · exact hne
      · exact absurd hzσ hne
    show some _ = some _
    rw [hyσ x hx hyne, hyσ _ (shape?_merge b hz hx hzσ) hyne]
  · have hzne : ∀ u : Json, u.shape? = some σ → u.shape? ≠ z.shape? := by
      intro u hu heq
      exact hzσ (heq.symm.trans hu)
    cases b with
    | false =>
      -- nothing of `z` comes into a value of the shape
      show some _ = some _
      rw [merge_false_of_shape?_ne (Or.inr (hzne _ (shape?_merge_false hy hx))),
        merge_false_of_shape?_ne (Or.inr (hzne x hx))]
    | true =>
      -- `z` replaces whatever has the shape, and then `y` must not change `z`
      have hzy : z = merge false z y := by
        have h : some _ = some _ := h
        rw [Option.some.injEq, merge_true_of_shape?_ne (hzne _ (shape?_merge_false hy hm)),
          merge_true_of_shape?_ne (hzne m hm)] at h
        exact h
      show some _ = some _
      rw [merge_true_of_shape?_ne (hzne _ (shape?_merge_false hy hx)),
        merge_true_of_shape?_ne (hzne x hx), ← hzy]

/-- Values that merge alike into each other share a shape, if one of them has a shape. -/
theorem shape?_eq_of_merge_comm {x y : Json} (hx : x.shape? = some σ)
    (h : merge false x y = merge false y x) : y.shape? = some σ := by
  by_contra hne
  have hxy : x.shape? ≠ y.shape? := fun heq => hne (heq.symm.trans hx)
  -- of values of different shapes the first one stays, so both would be the same
  rw [merge_false_of_shape?_ne (Or.inr hxy), merge_false_of_shape?_ne (Or.inr hxy.symm)] at h
  rw [h] at hx
  exact hne hx

/-! ## The law -/

/-- Merges that commute pairwise into `m` commute after another of them, in values of one shape whose parts do. -/
theorem Commute.merge_of_parts (hm : Shaped σ m) (hv : Shaped σ v) (hw : Shaped σ w) (ht : Shaped σ t)
    (hvw : Commute b m v w) (htw : Commute b m t w) (hvt : Commute false m v t)
    (hparts : ∀ name, Commute b (m.bind (part? name)) (v.bind (part? name)) (w.bind (part? name)) →
      Commute b (m.bind (part? name)) (t.bind (part? name)) (w.bind (part? name)) →
      Commute false (m.bind (part? name)) (v.bind (part? name)) (t.bind (part? name)) →
      Commute b (mergeParts false (m.bind (part? name)) (t.bind (part? name))) (v.bind (part? name))
        (w.bind (part? name))) :
    Commute b (mergeParts false m t) v w := by
  rw [commute_iff hm hv hw] at hvw
  rw [commute_iff hm ht hw] at htw
  rw [commute_iff hm hv ht] at hvt
  rw [commute_iff (hm.mergeParts false ht) hv hw]
  constructor
  · rw [idsAt_mergeParts false hm ht]
    exact addIds_comm_addIds (nodup_idsAt v) (nodup_idsAt w) (idsAt t) hvw.1
  · intro name
    rw [part_mergeParts false hm ht]
    exact hparts name (hvw.2 name) (htw.2 name) (hvt.2 name)

theorem depth_lt_of_bind_part? {n : Nat} {t : Option Json} (h : ∀ x ∈ t, x.depth < n + 1) (name : String) :
    ∀ x ∈ t.bind (part? name), x.depth < n := by
  intro x hx
  obtain ⟨y, rfl, hy⟩ := Option.bind_eq_some_iff.1 hx
  have hlt := depth_lt_of_part? hy
  have hle := h y rfl
  omega

/-- The law for merges into nothing. -/
theorem Commute.merge_none {x y z : Json} (hx : x.WellFormed) (hy : y.WellFormed)
    (hxy : Commute b none (some x) (some y)) (hxz : Commute false none (some x) (some z))
    (hshaped : ∀ σ, x.shape? = some σ → y.shape? = some σ → z.shape? = some σ →
      Commute b (some z) (some x) (some y)) :
    Commute b (some z) (some x) (some y) := by
  have hxz : some (Json.merge false x z) = some (Json.merge false z x) := hxz
  rw [Option.some.injEq] at hxz
  rcases hσ : x.shape? with _ | σ
  · -- `x` changes nothing
    show some _ = some _
    rw [merge_false_of_shape?_eq_none hσ, merge_false_of_shape?_eq_none hσ]
  · have hzσ := shape?_eq_of_merge_comm hσ hxz
    by_cases hyσ : y.shape? = some σ
    · exact hshaped σ hσ hyσ hzσ
    · apply commute_some_of_ne hσ hzσ hx hy (Or.inr hyσ)
      -- what is merged into nothing can be merged into itself
      cases b with
      | false =>
        have hxy : some (Json.merge false x y) = some (Json.merge false y x) := hxy
        rw [Option.some.injEq] at hxy
        exact absurd (shape?_eq_of_merge_comm hσ hxy) hyσ
      | true =>
        have hne : ∀ u : Json, u.shape? = some σ → u.shape? ≠ y.shape? := by
          intro u hu heq
          exact hyσ (heq.symm.trans hu)
        have hyx : Json.merge false y x = y := merge_false_of_shape?_ne (Or.inr (hne x hσ).symm)
        show some _ = some _
        rw [merge_true_of_shape?_ne (hne _ (shape?_merge_false hx hσ)), merge_true_of_shape?_ne (hne x hσ), hyx]

/-- The law for merges into a value. -/
theorem Commute.merge_some {u x y z : Json} (hx : x.WellFormed) (hy : y.WellFormed) (hz : z.WellFormed)
    (hxy : Commute b (some u) (some x) (some y))
    (hshaped : ∀ σ, u.shape? = some σ → x.shape? = some σ → y.shape? = some σ → z.shape? = some σ →
      Commute b (some (merge false u z)) (some x) (some y)) :
    Commute b (some (merge false u z)) (some x) (some y) := by
  by_cases hne : u.shape? = none ∨ u.shape? ≠ z.shape?
  · rw [merge_false_of_shape?_ne hne]
    exact hxy
  · obtain ⟨σ, huσ, hzσ⟩ := exists_shape_of_not hne
    by_cases hxyσ : x.shape? ≠ some σ ∨ y.shape? ≠ some σ
    · exact commute_some_of_ne huσ (shape?_merge false hz huσ hzσ) hx hy hxyσ hxy
    · obtain ⟨hxσ, hyσ⟩ := not_or.1 hxyσ
      exact hshaped σ huσ (not_not.1 hxσ) (not_not.1 hyσ) hzσ

/-- **Merges that commute pairwise commute after one of them.** -/
theorem Commute.merge (hm : Fit m) (hv : Fit v) (hw : Fit w) (ht : Fit t) (hvw : Commute b m v w)
    (htw : Commute b m t w) (hvt : Commute false m v t) : Commute b (mergeParts false m t) v w := by
  -- the induction is on how deep `t` is nested
  obtain ⟨n, hn⟩ : ∃ n, ∀ x ∈ t, x.depth < n := by
    rcases t with _ | z
    · exact ⟨0, fun x hx => nomatch hx⟩
    · refine ⟨z.depth + 1, ?_⟩
      rintro x hx
      cases hx
      omega
  induction n generalizing m v w t with
  | zero =>
    rcases t with _ | z
    · rw [mergeParts_none_right]
      exact hvw
    · exact absurd (hn z rfl) (Nat.not_lt_zero _)
  | succ n ih =>
    rcases t with _ | z
    · rw [mergeParts_none_right]
      exact hvw
    rcases v with _ | x
    · exact commute_none_left b _ w
    rcases w with _ | y
    · exact commute_none_right b _ (some x)
    have hx := hv x rfl
    have hy := hw y rfl
    have hz := ht z rfl
    -- in values of one shape all four are merged part by part, and the parts of `t` nest less deep
    have hparts : ∀ σ, Shaped σ m → x.shape? = some σ → y.shape? = some σ → z.shape? = some σ →
        Commute b (mergeParts false m (some z)) (some x) (some y) := by
      intro σ hmσ hxσ hyσ hzσ
      apply Commute.merge_of_parts hmσ (shaped_some hx hxσ) (shaped_some hy hyσ) (shaped_some hz hzσ) hvw htw hvt
      intro name hvw htw hvt
      exact ih (hm.part name) (hv.part name) (hw.part name) (ht.part name) hvw htw hvt
        (depth_lt_of_bind_part? hn name)
    rcases m with _ | u
    · refine Commute.merge_none hx hy hvw hvt ?_
      intro σ
      exact hparts σ (shaped_none σ)
    · refine Commute.merge_some hx hy hz hvw ?_
      intro σ huσ
      exact hparts σ (shaped_some (hm u rfl) huσ)

end DocMesh.Json
