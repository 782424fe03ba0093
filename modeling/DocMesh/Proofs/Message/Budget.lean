/-
# What a page takes

Whether an entry goes on a page is decided as soon as it is reached, before it is known how many others share its
timestamp. So a page may take more than its budget, but only by entries that share their timestamp with one that
fits. If the entries of every single timestamp fit into the budget, a page takes less than two budgets.

Main statements:

* `exists_lastGroup_page` : the last timestamp of a page begins within the budget, unless it is the only one;
* `page_within_budget` : where a page ends, and what it takes;
* `page_beyond_budget` : a page with two timestamps that takes more than its budget.
-/
import DocMesh.Proofs.Cbor.RoundTrip
import DocMesh.Proofs.Message.Pages
import Mathlib.Algebra.GroupWithZero.Nat
import Mathlib.Algebra.Order.BigOperators.Group.List
import Mathlib.Algebra.Order.Group.Nat

namespace DocMesh.Entry

variable {budget used : Nat} {last : Timestamp} {e : Entry} {es fs p q : List Entry}

/-! ## Sizes -/

/-- How many bytes the entries take in a message. -/
def totalSize (es : List Entry) : Nat := (es.map wireSize).sum

@[simp] theorem totalSize_nil : totalSize [] = 0 := rfl

@[simp] theorem totalSize_cons (e : Entry) (es : List Entry) : totalSize (e :: es) = e.wireSize + totalSize es :=
  List.sum_cons

@[simp] theorem totalSize_append (es fs : List Entry) : totalSize (es ++ fs) = totalSize es + totalSize fs := by
  rw [totalSize, List.map_append, List.sum_append]
  rfl

theorem wireSize_pos (e : Entry) : 0 < e.wireSize := Cbor.Item.length_encode_pos _

theorem totalSize_le_of_sublist (h : es.Sublist fs) : totalSize es ≤ totalSize fs :=
  (h.map wireSize).sum_le_sum fun _ _ => Nat.zero_le _

/-! ## Entries with the same timestamp -/

/-- The entries in the list that have the given timestamp. -/
def group (t : Timestamp) (es : List Entry) : List Entry := es.filter (·.timestamp = t)

theorem group_sublist (t : Timestamp) (h : es.Sublist fs) : (group t es).Sublist (group t fs) := h.filter _

theorem sublist_group {t : Timestamp} (h : ∀ e ∈ es, e.timestamp = t) (hes : es.Sublist fs) :
    es.Sublist (group t fs) := by
  have hgroup : group t es = es := List.filter_eq_self.2 fun e he => decide_eq_true (h e he)
  rw [← hgroup]
  exact group_sublist t hes

/-- How entries end: `first` is the first one with the last timestamp, all others with it are `behind`, and the ones
`before` are earlier. -/
structure LastGroup (es before : List Entry) (first : Entry) (behind : List Entry) : Prop where
  eq : es = before ++ first :: behind
  earlier : ∀ e ∈ before, e.timestamp < first.timestamp
  shared : ∀ e ∈ behind, e.timestamp = first.timestamp

/-- What goes on a page behind other entries has their last timestamp, or its own last timestamp begins within the
budget. -/
theorem pageAfter_cases (hes : Chronological es) (hlast : ∀ a ∈ es, last ≤ a.timestamp) (budget used : Nat) :
    (∀ a ∈ pageAfter budget used last es, a.timestamp = last) ∨
      ∃ before first behind, LastGroup (pageAfter budget used last es) before first behind ∧
        last < first.timestamp ∧ used + totalSize (before ++ [first]) ≤ budget := by
  induction es generalizing used last with
  | nil => exact Or.inl (List.forall_mem_nil _)
  | cons e es ih =>
    have hpair := List.pairwise_cons.1 hes
    have hle : last ≤ e.timestamp := hlast e List.mem_cons_self
    rw [pageAfter]
    split
    · rename_i hfits
      rcases ih hpair.2 hpair.1 (used + e.wireSize) with hall | ⟨before, first, behind, hgroup, hlt, hsize⟩
      · by_cases heq : e.timestamp = last
        · exact Or.inl (List.forall_mem_cons.2 ⟨heq, fun a ha => (hall a ha).trans heq⟩)
        · -- the entry begins a new timestamp, so it is there because it fits
          have hlt : last < e.timestamp := Std.lt_of_le_of_ne hle fun h => heq h.symm
          have hsize : used + e.wireSize ≤ budget := hfits.resolve_left heq
          exact Or.inr ⟨[], e, _, ⟨rfl, List.forall_mem_nil _, hall⟩, hlt, by simpa using hsize⟩
      · refine Or.inr ⟨e :: before, first, behind, ⟨?_, ?_, hgroup.shared⟩, Std.lt_of_le_of_lt hle hlt, ?_⟩
        · rw [hgroup.eq, List.cons_append]
        · exact List.forall_mem_cons.2 ⟨hlt, hgroup.earlier⟩
        · rw [List.cons_append, totalSize_cons]
          omega
    · exact Or.inl (List.forall_mem_nil _)

/-- **Where the last timestamp of a page begins.** It is the only one, or its first entry is within the budget. -/
theorem exists_lastGroup_page (hes : Chronological es) (hne : es ≠ []) (budget : Nat) :
    ∃ before first behind, LastGroup (page budget es) before first behind ∧
      (before = [] ∨ totalSize (before ++ [first]) ≤ budget) := by
  cases es with
  | nil => exact absurd rfl hne
  | cons e es =>
    have hpair := List.pairwise_cons.1 hes
    rw [page]
    rcases pageAfter_cases hpair.2 hpair.1 budget e.wireSize with hall | ⟨before, first, behind, hgroup, hlt, hsize⟩
    · exact ⟨[], e, _, ⟨rfl, List.forall_mem_nil _, hall⟩, Or.inl rfl⟩
    · refine ⟨e :: before, first, behind, ⟨?_, ?_, hgroup.shared⟩, Or.inr ?_⟩
      · rw [hgroup.eq, List.cons_append]
      · exact List.forall_mem_cons.2 ⟨hlt, hgroup.earlier⟩
      · rwa [List.cons_append, totalSize_cons]

/-! ## Where a page ends -/

/-- What goes on a page ends only before an entry with another timestamp that does not fit. -/
theorem end_pageAfter (h : e ∈ (es.drop (pageAfter budget used last es).length).head?) :
    endAfter last (pageAfter budget used last es) ≠ e.timestamp ∧
      budget < used + totalSize (pageAfter budget used last es) + e.wireSize := by
  induction es generalizing used last with
  | nil => cases h
  | cons a es ih =>
    rw [pageAfter] at h ⊢
    split at h
    · rename_i hfits
      rw [if_pos hfits, endAfter_cons, totalSize_cons, ← Nat.add_assoc]
      exact ih h
    · rename_i hfull
      cases h
      rw [if_neg hfull]
      rw [not_or, Nat.not_le] at hfull
      exact ⟨fun heq => hfull.1 heq.symm, hfull.2⟩

/-- A page ends only before an entry that does not fit. -/
theorem lt_of_mem_head_drop_page (h : e ∈ (es.drop (page budget es).length).head?) :
    budget < totalSize (page budget es) + e.wireSize := by
  cases es with
  | nil => cases h
  | cons a es =>
    rw [page, totalSize_cons]
    exact (end_pageAfter h).2

/-- A page does not end before an entry with the timestamp of its last one. -/
theorem ne_of_mem_head_drop_page {a : Entry} (ha : (page budget es).getLast? = some a)
    (h : e ∈ (es.drop (page budget es).length).head?) : a.timestamp ≠ e.timestamp := by
  cases es with
  | nil => cases h
  | cons b es =>
    rw [← endAfter_pageAfter ha]
    exact (end_pageAfter h).1

/-- All of a page is earlier than what does not go on it. -/
theorem page_lt_drop {a b : Entry} (hes : Chronological es) (ha : a ∈ page budget es)
    (hb : b ∈ es.drop (page budget es).length) : a.timestamp < b.timestamp := by
  rcases hend : (page budget es).getLast? with _ | c
  · rw [List.getLast?_eq_none_iff.1 hend] at ha
    cases ha
  · exact Std.lt_of_le_of_lt (le_of_mem_page hes hend ha) (lt_of_mem_drop_page hes hend hb)

/-! ## All pages of a list -/

/-- Every page is the first one of what is left of the list. -/
theorem exists_of_mem_pages (h : p ∈ pages budget es) : ∃ n, es.drop n ≠ [] ∧ p = page budget (es.drop n) := by
  fun_induction pages budget es with
  | case1 => cases h
  | case2 es hne _ ih =>
    rcases List.mem_cons.1 h with rfl | h
    · exact ⟨0, hne, rfl⟩
    · obtain ⟨n, hn, rfl⟩ := ih h
      rw [List.drop_drop] at hn ⊢
      exact ⟨_, hn, rfl⟩

/-- If the entries of every timestamp fit into the budget, a page takes less than two budgets. -/
theorem totalSize_page_lt (hes : Chronological es) (hne : es ≠ [])
    (hgroup : ∀ e ∈ es, totalSize (group e.timestamp es) ≤ budget) : totalSize (page budget es) < 2 * budget := by
  obtain ⟨before, first, behind, hlast, hsize⟩ := exists_lastGroup_page hes hne budget
  have hsub : (first :: behind).Sublist es := by
    have hpage : (page budget es).Sublist es := (page_append_drop budget es ▸ List.prefix_append _ _).sublist
    rw [hlast.eq] at hpage
    exact (List.sublist_append_right before _).trans hpage
  have hshared : ∀ e ∈ first :: behind, e.timestamp = first.timestamp := List.forall_mem_cons.2 ⟨rfl, hlast.shared⟩
  have hfit := Nat.le_trans (totalSize_le_of_sublist (sublist_group hshared hsub))
    (hgroup first (hsub.subset List.mem_cons_self))
  have hpos := wireSize_pos first
  rw [totalSize_cons] at hfit
  rw [hlast.eq, totalSize_append, totalSize_cons]
  rcases hsize with rfl | hsize
  · rw [totalSize_nil]
    omega
  · rw [totalSize_append, totalSize_cons, totalSize_nil] at hsize
    omega

/-- **What a page takes.** A page of a list that ascends by timestamp is what the list starts with, and empty only if
the list is. Everything behind it is later than all of it, and the next entry would not have fitted. Its last timestamp
is the only one, or begins with an entry that is within the budget; only what shares the timestamp of this entry can be
beyond. So if the entries of every timestamp fit into the budget, each page of the list takes less than two budgets. -/
theorem page_within_budget (hes : Chronological es) (budget : Nat) :
    page budget es <+: es ∧ (es ≠ [] → page budget es ≠ []) ∧
      (∀ a ∈ page budget es, ∀ b ∈ es.drop (page budget es).length, a.timestamp < b.timestamp) ∧
      (∀ b ∈ (es.drop (page budget es).length).head?, budget < totalSize (page budget es) + b.wireSize) ∧
      (es ≠ [] → ∃ before first behind, LastGroup (page budget es) before first behind ∧
        (before = [] ∨ totalSize (before ++ [first]) ≤ budget)) ∧
      ((∀ e ∈ es, totalSize (group e.timestamp es) ≤ budget) → ∀ p ∈ pages budget es, totalSize p < 2 * budget) := by
  refine ⟨⟨_, page_append_drop budget es⟩, page_ne_nil budget, fun a ha b hb => page_lt_drop hes ha hb,
    fun b hb => lt_of_mem_head_drop_page hb, fun hne => exists_lastGroup_page hes hne budget, fun hgroup p hp => ?_⟩
  obtain ⟨n, hne, rfl⟩ := exists_of_mem_pages hp
  have hsub := List.drop_sublist n es
  apply totalSize_page_lt (hes.sublist hsub) hne
  intro e he
  exact Nat.le_trans (totalSize_le_of_sublist (group_sublist _ hsub)) (hgroup e (hsub.subset he))

/-- Of four entries, two of which have the same timestamp, three go on a page that has room for two. -/
theorem page_within_budget_four :
    let es := [put "c" "a" (.ofInt 1) ⟨4, 0, "n"⟩, put "c" "b" (.ofInt 2) ⟨5, 0, "n"⟩,
      put "d" "b" (.ofInt 3) ⟨5, 0, "n"⟩, put "c" "z" (.ofInt 4) ⟨6, 0, "n"⟩]
    Chronological es ∧ page 200 es = es.take 3 ∧ (∀ e ∈ es, totalSize (group e.timestamp es) ≤ 200) ∧
      ∀ p ∈ pages 200 es, totalSize p < 2 * 200 := by
  intro es
  have hes : Chronological es := by unfold Chronological; decide
  have hgroup : ∀ e ∈ es, totalSize (group e.timestamp es) ≤ 200 := by decide +kernel
  obtain ⟨-, -, -, -, -, htwice⟩ := page_within_budget hes 200
  exact ⟨hes, by decide +kernel, hgroup, htwice hgroup⟩

/-- **A page beyond its budget.** It has two timestamps, and the entries of each of them would fit. -/
theorem page_beyond_budget :
    let es := [put "c" "a" (.ofInt 1) ⟨4, 0, "n"⟩, put "c" "b" (.ofInt 2) ⟨5, 0, "n"⟩,
      put "d" "b" (.ofInt 3) ⟨5, 0, "n"⟩]
    Chronological es ∧ (∀ e ∈ es, totalSize (group e.timestamp es) ≤ 200) ∧
      200 < totalSize (page 200 es) ∧ ∃ a ∈ page 200 es, ∃ b ∈ page 200 es, a.timestamp ≠ b.timestamp := by
  intro es
  exact ⟨by unfold Chronological; decide, by decide +kernel⟩

end DocMesh.Entry
