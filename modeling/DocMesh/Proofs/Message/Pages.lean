/-
# Pages of a log

A page is what a list of entries starts with, and the pages of a list make up the list. In a list that ascends
by timestamp everything behind a page is later than the page: whoever has the page can ask for the rest by the
timestamp of its last entry.

Main statements:

* `page_append_drop`, `flatten_pages` : pages lose nothing and repeat nothing;
* `lt_of_mem_drop_page` : what does not go on a page is later than its last entry.
-/
import DocMesh.Message.Pages
import DocMesh.Proofs.Clock

namespace DocMesh

namespace Entry

variable {budget used : Nat} {last : Timestamp} {e a : Entry} {es : List Entry}

/-! ## Pages as prefixes -/

/-- The entries that go on a page are those that come first. -/
theorem pageAfter_append_drop (budget used : Nat) (last : Timestamp) (es : List Entry) :
    pageAfter budget used last es ++ es.drop (pageAfter budget used last es).length = es := by
  induction es generalizing used last with
  | nil => rfl
  | cons e es ih =>
    rw [pageAfter]
    split
    · rw [List.length_cons, List.drop_succ_cons, List.cons_append, ih]
    · rfl

/-- A page and what is behind it make up the list. -/
theorem page_append_drop (budget : Nat) (es : List Entry) :
    page budget es ++ es.drop (page budget es).length = es := by
  cases es with
  | nil => rfl
  | cons e es =>
    rw [page, List.length_cons, List.drop_succ_cons, List.cons_append, pageAfter_append_drop]

theorem eq_nil_of_page_eq_nil (h : page budget es = []) : es = [] := by
  cases es with
  | nil => rfl
  | cons e es => cases h

theorem mem_of_mem_page (h : e ∈ page budget es) : e ∈ es := by
  rw [← page_append_drop budget es]
  exact List.mem_append_left _ h

/-- All pages together are the list. -/
theorem flatten_pages (budget : Nat) (es : List Entry) : (pages budget es).flatten = es := by
  fun_induction pages budget es with
  | case1 => rfl
  | case2 es _ _ ih => rw [List.flatten_cons, ih, page_append_drop]

/-- The first of the pages, and the others. -/
theorem pages_eq_cons {first : List Entry} {rest : List (List Entry)} (h : pages budget es = first :: rest) :
    es ≠ [] ∧ first = page budget es ∧ rest = pages budget (es.drop (page budget es).length) := by
  rw [pages] at h
  split at h
  · cases h
  · rename_i hne
    cases h
    exact ⟨hne, rfl, rfl⟩

/-! ## Where pages end -/

/-- The entries in the list ascend by timestamp; several may have the same one. -/
def Chronological (es : List Entry) : Prop := es.Pairwise fun a b => a.timestamp ≤ b.timestamp

/-- The timestamp at which a list of entries ends that goes on after `last`. -/
def endAfter (last : Timestamp) (es : List Entry) : Timestamp := (es.getLast?.map (·.timestamp)).getD last

theorem endAfter_cons (last : Timestamp) (e : Entry) (es : List Entry) :
    endAfter last (e :: es) = endAfter e.timestamp es := by
  cases es with
  | nil => rfl
  | cons a es => rw [endAfter, endAfter, List.getLast?_cons_cons, List.getLast?_cons, Option.map_some]; rfl

theorem endAfter_of_getLast? (last : Timestamp) (h : es.getLast? = some a) : endAfter last es = a.timestamp := by
  rw [endAfter, h]
  rfl

/-- An entry that does not go on a page with the others is later than the end of the page. -/
theorem lt_of_mem_drop_pageAfter (hes : Chronological es) (hlast : ∀ a ∈ es, last ≤ a.timestamp)
    (h : e ∈ es.drop (pageAfter budget used last es).length) :
    endAfter last (pageAfter budget used last es) < e.timestamp := by
  induction es generalizing used last with
  | nil => cases h
  | cons a es ih =>
    have hpair := List.pairwise_cons.1 hes
    rw [pageAfter] at h ⊢
    split at h
    · rename_i hfits
      rw [if_pos hfits, endAfter_cons]
      exact ih hpair.2 hpair.1 h
    · rename_i hfull
      rw [if_neg hfull]
      rw [not_or] at hfull
      have hne : a.timestamp ≠ last := hfull.1
      have hlt : last < a.timestamp := by
        apply Std.lt_of_le_of_ne (hlast a List.mem_cons_self)
        exact fun heq => hne heq.symm
      show last < e.timestamp
      rcases List.mem_cons.1 h with rfl | he
      · exact hlt
      · exact Std.lt_of_lt_of_le hlt (hpair.1 e he)

/-- A page ends with its last entry. -/
theorem endAfter_pageAfter {b : Entry} (ha : (page budget (b :: es)).getLast? = some a) :
    endAfter b.timestamp (pageAfter budget b.wireSize b.timestamp es) = a.timestamp := by
  rw [← endAfter_cons b.timestamp, ← page, endAfter_of_getLast? b.timestamp ha]

/-- What does not go on a page is later than the last entry of the page. -/
theorem lt_of_mem_drop_page (hes : Chronological es) (ha : (page budget es).getLast? = some a)
    (h : e ∈ es.drop (page budget es).length) : a.timestamp < e.timestamp := by
  cases es with
  | nil => cases h
  | cons b es =>
    have hpair := List.pairwise_cons.1 hes
    rw [← endAfter_pageAfter ha]
    rw [page, List.length_cons, List.drop_succ_cons] at h
    exact lt_of_mem_drop_pageAfter hpair.2 hpair.1 h

/-- No entry of a page is later than its last one. -/
theorem le_of_mem_page (hes : Chronological es) (ha : (page budget es).getLast? = some a)
    (h : e ∈ page budget es) : e.timestamp ≤ a.timestamp := by
  obtain ⟨front, hfront⟩ := List.getLast?_eq_some_iff.1 ha
  have hpage : Chronological (page budget es) := by
    rw [Chronological, ← page_append_drop budget es, List.pairwise_append] at hes
    exact hes.1
  rw [hfront] at hpage h
  rcases List.mem_append.1 h with h | h
  · exact (List.pairwise_append.1 hpage).2.2 e h a List.mem_cons_self
  · rw [List.mem_singleton.1 h]
    exact Std.le_refl a.timestamp

end Entry

end DocMesh
