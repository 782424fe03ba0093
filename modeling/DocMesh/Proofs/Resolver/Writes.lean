/-
# Merging many writes of one document

The writes that a replica has received of a document are merged one after the other, as they come. What comes of it
is the newest of them with all others merged into it as older ones, in whatever order. This holds where every
two and every three of the writes are compatible: that it does for any number of them is the law of
commuting merges.

Main statements:

* `Calm.merge` : merges into a value that are calm stay so when one of the writes has been merged;
* `mergeOlder_eq_of_perm` : the order of the older writes makes no difference;
* `mergeOlder_newer` : a write that is newer than all others takes the place of the newest.
-/
import DocMesh.Document.Basic
import DocMesh.Proofs.Clock
import DocMesh.Proofs.Resolver.Commutation
import Mathlib.Data.Set.Basic

namespace DocMesh

namespace Resolver

open Json (merge Commute)

variable {W : Set Entry} {a b c e t : Entry} {es fs : List Entry} {v : Json}

/-! ## Compatible writes -/

/-- Every two writes are merged alike in both orders, and every three in all orders. -/
structure Compatible (W : Set Entry) : Prop where
  /-- Two writes, the second of them newer. -/
  two : ∀ a ∈ W, ∀ b ∈ W, a.timestamp < b.timestamp →
    merge true a.content b.content = merge false b.content a.content
  /-- Three writes, if the newest comes first. -/
  newestFirst : ∀ a ∈ W, ∀ b ∈ W, ∀ c ∈ W, a.timestamp < b.timestamp → b.timestamp < c.timestamp →
    merge false (merge false c.content a.content) b.content
      = merge false (merge false c.content b.content) a.content
  /-- Three writes, if the one in the middle comes first. -/
  middleFirst : ∀ a ∈ W, ∀ b ∈ W, ∀ c ∈ W, a.timestamp < b.timestamp → b.timestamp < c.timestamp →
    merge true (merge false b.content a.content) c.content
      = merge false (merge true b.content c.content) a.content

/-! ## Calm values -/

/-- Into the value `v`, which is as old as the newest write `c` merged into it, the writes can be merged in either
order, two older ones as well as an older and a newer one. -/
structure Calm (W : Set Entry) (c : Entry) (v : Json) : Prop where
  wellFormed : v.WellFormed
  older : ∀ a ∈ W, ∀ b ∈ W, a.timestamp < c.timestamp → b.timestamp < c.timestamp →
    Commute false (some v) (some a.content) (some b.content)
  newer : ∀ a ∈ W, ∀ b ∈ W, a.timestamp < c.timestamp → c.timestamp < b.timestamp →
    Commute true (some v) (some a.content) (some b.content)

/-- Compatible writes leave a single one of them calm. -/
theorem Compatible.calm (h : Compatible W) (hts : ∀ a ∈ W, ∀ b ∈ W, a.timestamp = b.timestamp → a = b)
    (hwf : c.content.WellFormed) (hc : c ∈ W) : Calm W c c.content where
  wellFormed := hwf
  older a ha b hb hac hbc := by
    show some _ = some _
    -- the condition on three writes is stated for one order of the two older ones
    rcases Std.lt_trichotomy a.timestamp b.timestamp with hab | hab | hab
    · rw [h.newestFirst a ha b hb c hc hab hbc]
    · rw [hts a ha b hb hab]
    · rw [h.newestFirst b hb a ha c hc hab hac]
  newer a ha b hb hac hcb := by
    show some _ = some _
    rw [h.middleFirst a ha c hc b hb hac hcb]

/-- An older write that is merged into a calm value leaves it calm. -/
theorem Calm.merge (h : Calm W c v) (hwf : ∀ a ∈ W, a.content.WellFormed) (ht : t ∈ W)
    (htc : t.timestamp < c.timestamp) : Calm W c (merge false v t.content) where
  wellFormed := h.wellFormed.merge false (hwf t ht)
  older a ha b hb hac hbc := by
    have hfit : ∀ e ∈ W, Json.Fit (some e.content) := fun e he => Json.fit_some (hwf e he)
    exact Commute.merge (Json.fit_some h.wellFormed) (hfit a ha) (hfit b hb) (hfit t ht)
      (h.older a ha b hb hac hbc) (h.older t ht b hb htc hbc) (h.older a ha t ht hac htc)
  newer a ha b hb hac hcb := by
    have hfit : ∀ e ∈ W, Json.Fit (some e.content) := fun e he => Json.fit_some (hwf e he)
    exact Commute.merge (Json.fit_some h.wellFormed) (hfit a ha) (hfit b hb) (hfit t ht)
      (h.newer a ha b hb hac hcb) (h.newer t ht b hb htc hcb) (h.older a ha t ht hac htc)

/-! ## Older writes -/

/-- The value with the given writes merged into it as older ones. -/
def mergeOlder (v : Json) (es : List Entry) : Json := es.foldl (fun v e => merge false v e.content) v

theorem mergeOlder_cons (v : Json) (e : Entry) (es : List Entry) :
    mergeOlder v (e :: es) = mergeOlder (merge false v e.content) es := rfl

theorem mergeOlder_append (v : Json) (es fs : List Entry) :
    mergeOlder v (es ++ fs) = mergeOlder (mergeOlder v es) fs := List.foldl_append

/-- The order of older writes makes no difference. -/
theorem mergeOlder_eq_of_perm (h : Calm W c v) (hwf : ∀ a ∈ W, a.content.WellFormed) (hperm : es.Perm fs)
    (hes : ∀ e ∈ es, e ∈ W ∧ e.timestamp < c.timestamp) : mergeOlder v es = mergeOlder v fs := by
  -- the value stays calm on the way, so that every exchange of neighbours is allowed
  induction hperm generalizing v with
  | nil => rfl
  | @cons e es fs _ ih =>
    obtain ⟨heW, hec⟩ := hes e List.mem_cons_self
    rw [mergeOlder_cons, mergeOlder_cons]
    exact ih (h.merge hwf heW hec) fun a ha => hes a (List.mem_cons_of_mem e ha)
  | swap a b es =>
    obtain ⟨hbW, hbc⟩ := hes b List.mem_cons_self
    obtain ⟨haW, hac⟩ := hes a (List.mem_cons_of_mem b List.mem_cons_self)
    have hcomm : some _ = some _ := h.older a haW b hbW hac hbc
    rw [Option.some.injEq] at hcomm
    rw [mergeOlder_cons, mergeOlder_cons, mergeOlder_cons, mergeOlder_cons, hcomm]
  | @trans es₁ es₂ es₃ h₁ _ ih₁ ih₂ =>
    rw [ih₁ h hes]
    exact ih₂ h fun e he => hes e (h₁.mem_iff.2 he)

/-- A newer write can be merged before the older ones. -/
theorem merge_mergeOlder (h : Calm W c v) (hwf : ∀ a ∈ W, a.content.WellFormed)
    (hes : ∀ a ∈ es, a ∈ W ∧ a.timestamp < c.timestamp) (he : e ∈ W) (hce : c.timestamp < e.timestamp) :
    merge true (mergeOlder v es) e.content = mergeOlder (merge true v e.content) es := by
  -- the newer write moves in front of one older write after the other
  induction es generalizing v with
  | nil => rfl
  | cons a es ih =>
    obtain ⟨haW, hac⟩ := hes a List.mem_cons_self
    have hcomm : some _ = some _ := h.newer a haW e he hac hce
    rw [Option.some.injEq] at hcomm
    rw [mergeOlder_cons, mergeOlder_cons,
      ih (h.merge hwf haW hac) fun b hb => hes b (List.mem_cons_of_mem a hb), hcomm]

/-- A write that is newer than all others takes the place of the newest. -/
theorem mergeOlder_newer (h : Compatible W) (hts : ∀ a ∈ W, ∀ b ∈ W, a.timestamp = b.timestamp → a = b)
    (hwf : ∀ a ∈ W, a.content.WellFormed) (hc : c ∈ W)
    (hes : ∀ a ∈ es, a ∈ W ∧ a.timestamp < c.timestamp) (he : e ∈ W) (hce : c.timestamp < e.timestamp) :
    merge true (mergeOlder c.content es) e.content = mergeOlder e.content (c :: es) := by
  rw [merge_mergeOlder (h.calm hts (hwf c hc) hc) hwf hes he hce, mergeOlder_cons, h.two c hc e he hce]

end Resolver

end DocMesh
