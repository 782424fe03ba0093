/-
# Dividing entries into pages

Entries that are pushed travel page by page. No page is empty, so a list has at most as many pages as entries.
-/
import DocMesh.Message.WireEntry

namespace DocMesh

namespace Entry

theorem page_ne_nil (budget : Nat) {es : List Entry} (h : es ≠ []) : page budget es ≠ [] := by
  cases es with
  | nil => exact absurd rfl h
  | cons e es => simp [page]

/-- All pages of a list of entries, one after the other. -/
def pages (budget : Nat) (es : List Entry) : List (List Entry) :=
  if h : es = [] then []
  else
    have : (es.drop (page budget es).length).length < es.length := by
      have h₁ := List.length_pos_iff.2 (page_ne_nil budget h)
      have h₂ := List.length_pos_iff.2 h
      simp only [List.length_drop]
      omega
    page budget es :: pages budget (es.drop (page budget es).length)
termination_by es.length
decreasing_by exact this

end Entry

end DocMesh
