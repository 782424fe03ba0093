/-
# Logs and what is beyond them

The log of a store ascends by timestamp, and what a peer has beyond its last timestamp goes to its end, entry by
entry. A peer can ask for it page by page.

Main statements:

* `le_latest` : nothing in a log is later than its last timestamp;
* `entriesAfter_of_page` : the entries behind a page are those after its last timestamp;
* `toList_log_applyAll` : entries beyond the log extend it at the end.
-/
import DocMesh.Proofs.Message.Carriage
import DocMesh.Proofs.Message.Pages
import DocMesh.Proofs.Store.Application

namespace DocMesh

/-! ## Ascending by timestamp -/

/-- Entries that ascend by their ids ascend by their timestamps. -/
theorem Entry.chronological_of_ascending {es : List Entry} (h : Ascending Entry.id es) :
    Entry.Chronological es := by
  refine h.imp ?_
  intro a b hab
  rw [EntryId.compare_def, Ordering.then_eq_lt] at hab
  rcases hab with hlt | ⟨heq, _⟩
  · exact Std.le_of_lt hlt
  · have heq : a.timestamp = b.timestamp := Std.LawfulEqCmp.eq_of_compare heq
    rw [heq]
    exact Std.le_refl b.timestamp

/-- An entry of an earlier timestamp has an earlier place in the log. -/
theorem Entry.compare_id_of_lt {a b : Entry} (h : a.timestamp < b.timestamp) :
    compare a.id b.id = .lt := by
  rw [EntryId.compare_def, Ordering.then_eq_lt]
  exact Or.inl h

namespace Store

variable {s : Store} {since : Timestamp} {e a : Entry} {es : List Entry} {budget : Nat}

theorem chronological_log (s : Store) : Entry.Chronological s.log.toList :=
  Entry.chronological_of_ascending s.log.ascending

/-- Nothing in a log is later than its last timestamp. -/
theorem le_latest (he : e ∈ s.log.toList) : e.timestamp ≤ s.latest := by
  rw [Store.latest]
  rcases hlast : s.log.toList.getLast? with _ | a
  · rw [List.getLast?_eq_none_iff.1 hlast] at he
    cases he
  · obtain ⟨front, hfront⟩ := List.getLast?_eq_some_iff.1 hlast
    have hlog := s.chronological_log
    rw [hfront] at hlog he
    rcases List.mem_append.1 he with he | he
    · exact (List.pairwise_append.1 hlog).2.2 e he a List.mem_cons_self
    · rw [List.mem_singleton.1 he]
      exact Std.le_refl a.timestamp

/-! ## The entries after a timestamp -/

theorem mem_entriesAfter : e ∈ s.entriesAfter since ↔ e ∈ s.log.toList ∧ since < e.timestamp := by
  rw [entriesAfter, List.mem_filter, decide_eq_true_iff]

theorem ascending_entriesAfter (s : Store) (since : Timestamp) :
    Ascending Entry.id (s.entriesAfter since) := s.log.ascending.filter _

theorem chronological_entriesAfter (s : Store) (since : Timestamp) :
    Entry.Chronological (s.entriesAfter since) :=
  Entry.chronological_of_ascending (s.ascending_entriesAfter since)

/-- The entries after a later timestamp are found among those after an earlier one. -/
theorem filter_entriesAfter {t : Timestamp} (h : since ≤ t) :
    (s.entriesAfter since).filter (fun e => t < e.timestamp) = s.entriesAfter t := by
  rw [entriesAfter, entriesAfter, List.filter_filter]
  apply List.filter_congr
  intro e _
  rw [← Bool.decide_and, decide_eq_decide]
  constructor
  · rintro ⟨hlt, _⟩
    exact hlt
  · intro hlt
    exact ⟨hlt, Std.lt_of_le_of_lt h hlt⟩

/-- A page that is not empty leads to a later timestamp, and the entries after that one are those behind the
page. -/
theorem entriesAfter_of_page (ha : (Entry.page budget (s.entriesAfter since)).getLast? = some a) :
    since < a.timestamp ∧
      s.entriesAfter since = Entry.page budget (s.entriesAfter since) ++ s.entriesAfter a.timestamp := by
  have hes := s.chronological_entriesAfter since
  have hlt : since < a.timestamp :=
    (mem_entriesAfter.1 (Entry.mem_of_mem_page (List.mem_of_getLast? ha))).2
  refine ⟨hlt, ?_⟩
  have hsplit := Entry.page_append_drop budget (s.entriesAfter since)
  have hfront : (Entry.page budget (s.entriesAfter since)).filter
      (fun e => a.timestamp < e.timestamp) = [] := by
    rw [List.filter_eq_nil_iff]
    intro e he
    rw [decide_eq_true_iff, Std.not_lt]
    exact Entry.le_of_mem_page hes ha he
  have hrest : ((s.entriesAfter since).drop (Entry.page budget (s.entriesAfter since)).length).filter
      (fun e => a.timestamp < e.timestamp)
        = (s.entriesAfter since).drop (Entry.page budget (s.entriesAfter since)).length := by
    rw [List.filter_eq_self]
    intro e he
    rw [decide_eq_true_iff]
    exact Entry.lt_of_mem_drop_page hes ha he
  have hafter := filter_entriesAfter (s := s) (Std.le_of_lt hlt)
  rw [← hsplit, List.filter_append, hfront, hrest, List.nil_append] at hafter
  rw [← hafter, hsplit]

/-! ## Extending a log -/

/-- Entries behind the log extend it at the end. -/
theorem toList_log_applyAll (h : Ascending Entry.id (s.log.toList ++ es)) :
    (s.applyAll es).log.toList = s.log.toList ++ es := by
  induction es generalizing s with
  | nil => rw [applyAll_nil, List.append_nil]
  | cons e es ih =>
    have hlog : (s.applyEntry e).log.toList = s.log.toList ++ [e] := by
      rw [log_applyEntry]
      apply Ordered.toList_insertNew_of_lt
      intro a ha
      exact (List.pairwise_append.1 h).2.2 a ha e List.mem_cons_self
    have happend : s.log.toList ++ e :: es = (s.applyEntry e).log.toList ++ es := by
      rw [hlog, List.append_assoc, List.singleton_append]
    rw [happend] at h ⊢
    exact ih h

/-- Entries up to a timestamp do not change which entries there are after it. -/
theorem entriesAfter_applyAll (h : ∀ e ∈ es, e.timestamp ≤ since) :
    (s.applyAll es).entriesAfter since = s.entriesAfter since := by
  induction es generalizing s with
  | nil => rfl
  | cons e es ih =>
    rw [applyAll_cons, ih fun a ha => h a (List.mem_cons_of_mem e ha)]
    rw [entriesAfter, log_applyEntry, entriesAfter]
    apply Ordered.filter_insertNew
    rw [decide_eq_false_iff_not, Std.not_lt]
    exact h e List.mem_cons_self

/-- What one store has beyond another, as it arrives there. -/
def beyond (s t : Store) : List Entry := (t.entriesAfter s.latest).map Entry.carried

/-- What arrives from beyond the log goes to its end. -/
theorem ascending_append_beyond (s t : Store) : Ascending Entry.id (s.log.toList ++ s.beyond t) := by
  refine List.pairwise_append.2 ⟨s.log.ascending, ?_, ?_⟩
  · refine List.pairwise_map.2 ((t.ascending_entriesAfter s.latest).imp ?_)
    intro a b hab
    rwa [Entry.id_carried, Entry.id_carried]
  · intro a ha b hb
    obtain ⟨e, he, rfl⟩ := List.mem_map.1 hb
    apply Entry.compare_id_of_lt
    rw [Entry.timestamp_carried]
    exact Std.lt_of_le_of_lt (le_latest ha) (mem_entriesAfter.1 he).2

/-- A log that is extended by what another store has beyond it. -/
theorem toList_log_applyAll_beyond (s t : Store) :
    (s.applyAll (s.beyond t)).log.toList = s.log.toList ++ s.beyond t :=
  toList_log_applyAll (s.ascending_append_beyond t)

end Store

end DocMesh
