/-
# What applying entries does to a store

An entry touches one document, the one it is about, and adds itself to the log if no entry of the same id is
there. A batch of entries does this entry by entry, or nothing at all. The stores that such batches make of an
empty one are the grown stores; every other module on stores speaks of them.

Main statements:

* `find?_applyEntry` : the documents after one entry;
* `mem_log_applyAll` : the log after many entries, if entries of one id are the same;
* `applyBatch_eq` : a batch is the application of its entries, unless one of them is invalid;
* `Grown.induction` : what holds of an empty store and is kept by every entry holds of all grown stores.
-/
import DocMesh.Proofs.Ordered
import DocMesh.Proofs.Resolver.Decision
import DocMesh.Store.Basic

namespace DocMesh

namespace Store

variable {r : Resolver} {s s' : Store} {e x : Entry} {es : List Entry} {n : Summary}

/-! ## One entry -/

@[simp] theorem resolver_applyEntry (s : Store) (e : Entry) : (s.applyEntry e).resolver = s.resolver := by
  rw [applyEntry]
  split <;> rfl

@[simp] theorem log_applyEntry (s : Store) (e : Entry) : (s.applyEntry e).log = s.log.insertNew e := by
  rw [applyEntry]
  split <;> rfl

/-- The documents of a store are found under their own ids. -/
theorem id_of_find? {id : DocumentId} {d : Document} (h : s.documents.find? id = some d) : d.id = id :=
  Ordered.key_of_find? h

/-- An entry changes its own document as the resolver says, and no other. -/
theorem find?_applyEntry (s : Store) (e : Entry) (id : DocumentId) :
    (s.applyEntry e).documents.find? id
      = if e.documentId = id then
          (s.resolver.resolve (s.documents.find? id) e).after (s.documents.find? id)
        else s.documents.find? id := by
  rw [applyEntry]
  split
  · rename_i d hd
    have hid : d.id = e.documentId := Resolver.id_of_resolve (fun b hb => id_of_find? hb) hd
    show (s.documents.insert d).find? id = _
    rw [Ordered.find?_insert, hid]
    by_cases h : e.documentId = id
    · subst h
      rw [if_pos rfl, if_pos rfl, hd, Resolution.after]
    · rw [if_neg h, if_neg h]
  · rename_i hd
    by_cases h : e.documentId = id
    · subst h
      rw [if_pos rfl, hd, Resolution.after]
    · rw [if_neg h]

/-- What is announced has no influence on what an entry does. -/
theorem applyEntry_feed (s : Store) (f : ChangeFeed) (e : Entry) :
    { s with feed := f }.applyEntry e = { s.applyEntry e with feed := f } := by
  rw [applyEntry, applyEntry]
  dsimp only
  split <;> rfl

/-! ## Many entries -/

/-- The store after the given entries, one after the other. -/
def applyAll (s : Store) (es : List Entry) : Store := es.foldl applyEntry s

@[simp] theorem applyAll_nil (s : Store) : s.applyAll [] = s := rfl

@[simp] theorem applyAll_cons (s : Store) (e : Entry) (es : List Entry) :
    s.applyAll (e :: es) = (s.applyEntry e).applyAll es := rfl

theorem applyAll_append (s : Store) (es fs : List Entry) :
    s.applyAll (es ++ fs) = (s.applyAll es).applyAll fs := List.foldl_append

@[simp] theorem resolver_applyAll (s : Store) (es : List Entry) : (s.applyAll es).resolver = s.resolver := by
  induction es generalizing s with
  | nil => rfl
  | cons e es ih => rw [applyAll_cons, ih, resolver_applyEntry]

/-- The log after many entries: each of them is added unless its id is taken. -/
theorem log_applyAll (s : Store) (es : List Entry) :
    (s.applyAll es).log = es.foldl Ordered.insertNew s.log := by
  induction es generalizing s with
  | nil => rfl
  | cons e es ih => rw [applyAll_cons, ih, log_applyEntry, List.foldl_cons]

theorem applyAll_feed (s : Store) (f : ChangeFeed) (es : List Entry) :
    { s with feed := f }.applyAll es = { s.applyAll es with feed := f } := by
  induction es generalizing s with
  | nil => rfl
  | cons e es ih => rw [applyAll_cons, applyAll_cons, applyEntry_feed, ih]

/-- What is in the log stays there. -/
theorem mem_log_applyAll_of_mem (h : x ∈ s.log.toList) : x ∈ (s.applyAll es).log.toList := by
  induction es generalizing s with
  | nil => exact h
  | cons e es ih =>
    apply ih
    rw [log_applyEntry, Ordered.mem_insertNew]
    exact Or.inl h

/-- The log grows by applied entries only. -/
theorem mem_of_mem_log_applyAll (h : x ∈ (s.applyAll es).log.toList) : x ∈ s.log.toList ∨ x ∈ es := by
  induction es generalizing s with
  | nil => exact Or.inl h
  | cons e es ih =>
    rcases ih h with h | h
    · rw [log_applyEntry, Ordered.mem_insertNew] at h
      rcases h with h | ⟨rfl, _⟩
      · exact Or.inl h
      · exact Or.inr List.mem_cons_self
    · exact Or.inr (List.mem_cons_of_mem e h)

/-- If entries of one id are the same, the log holds what was there and what was applied. -/
theorem mem_log_applyAll (hsame : ∀ a ∈ es, ∀ b ∈ es, a.id = b.id → a = b)
    (hlog : ∀ a ∈ es, ∀ b ∈ s.log.toList, a.id = b.id → a = b) :
    x ∈ (s.applyAll es).log.toList ↔ x ∈ s.log.toList ∨ x ∈ es := by
  refine ⟨mem_of_mem_log_applyAll, ?_⟩
  rintro (h | h)
  · exact mem_log_applyAll_of_mem h
  · induction es generalizing s with
    | nil => cases h
    | cons e es ih =>
      rcases List.mem_cons.1 h with rfl | hx
      · apply mem_log_applyAll_of_mem (s := s.applyEntry x)
        rw [log_applyEntry, Ordered.mem_insertNew]
        -- if the id is taken, it is taken by this entry
        rcases hf : s.log.find? x.id with _ | y
        · exact Or.inr ⟨rfl, rfl⟩
        · have hxy : x = y :=
            hlog x List.mem_cons_self y (Ordered.mem_of_find? hf) (Ordered.key_of_find? hf).symm
          rw [hxy]
          exact Or.inl (Ordered.mem_of_find? hf)
      · refine ih ?_ ?_ hx
        · intro a ha b hb
          exact hsame a (List.mem_cons_of_mem e ha) b (List.mem_cons_of_mem e hb)
        · intro a ha b hb
          rw [log_applyEntry, Ordered.mem_insertNew] at hb
          rcases hb with hb | ⟨rfl, _⟩
          · exact hlog a (List.mem_cons_of_mem e ha) b hb
          · exact hsame a (List.mem_cons_of_mem b ha) b List.mem_cons_self

/-! ## Batches -/

/-- An entry is invalid if it lacks its collection, its key or the id of its node. -/
theorem entryFault?_eq_none_iff (e : Entry) :
    entryFault? e = none ↔ ¬ (e.collection = "" ∨ e.key = "" ∨ e.timestamp.node = "") := by
  rw [entryFault?, ← or_assoc]
  simp only [Bool.or_eq_true, String.isEmpty_iff]
  by_cases hname : e.collection = "" ∨ e.key = ""
  · simp [hname]
  · by_cases hnode : e.timestamp.node = ""
    · simp [hname, hnode]
    · simp [hname, hnode]

theorem applyEntries_fst (s : Store) (n : Summary) (es : List Entry) :
    (s.applyEntries n es).1 = s.applyAll es := by
  induction es generalizing s n with
  | nil => rfl
  | cons e es ih => rw [applyEntries, applyAll_cons, ih]

@[simp] theorem resolver_foldl_putDocument (s : Store) (documents : List Document) :
    (documents.foldl putDocument s).resolver = s.resolver := by
  induction documents generalizing s with
  | nil => rfl
  | cons d documents ih => exact ih (s.putDocument d)

@[simp] theorem log_foldl_putDocument (s : Store) (documents : List Document) :
    (documents.foldl putDocument s).log = s.log := by
  induction documents generalizing s with
  | nil => rfl
  | cons d documents ih => exact ih (s.putDocument d)

/-- A batch writes its documents and applies its entries, unless one of these is invalid. -/
theorem applyBatch_eq (s : Store) (documents : List Document) (es : List Entry) :
    s.applyBatch documents es
      = match es.findSome? entryFault? with
        | some fault => .error fault
        | none => .ok ({ (documents.foldl putDocument s).applyAll es with
              feed := s.feed.publish (documents.map (·.collection) ++ es.map (·.collection)) },
            ((documents.foldl putDocument s).applyEntries {} es).2) := by
  rw [applyBatch]
  rcases hf : es.findSome? entryFault? with _ | fault
  · dsimp only
    rw [← applyEntries_fst _ {} es]
  · rfl

/-- A batch that is applied holds valid entries only, and does what its documents and they do. -/
theorem eq_of_applyBatch {documents : List Document} (h : s.applyBatch documents es = .ok (s', n)) :
    (∀ e ∈ es, entryFault? e = none) ∧
      s' = { (documents.foldl putDocument s).applyAll es with
        feed := s.feed.publish (documents.map (·.collection) ++ es.map (·.collection)) } ∧
      n = ((documents.foldl putDocument s).applyEntries {} es).2 := by
  rw [applyBatch_eq] at h
  split at h
  · cases h
  · rename_i hf
    cases h
    exact ⟨List.findSome?_eq_none_iff.1 hf, rfl, rfl⟩

/-- A batch is refused exactly if one of its entries is invalid. -/
theorem exists_applyBatch_eq_error_iff (s : Store) (documents : List Document) (es : List Entry) :
    (∃ fault, s.applyBatch documents es = .error fault) ↔ ¬ ∀ e ∈ es, entryFault? e = none := by
  rw [applyBatch_eq, ← List.findSome?_eq_none_iff]
  rcases es.findSome? entryFault? with _ | fault
  · exact ⟨fun ⟨_, h⟩ => (nomatch h), fun h => absurd rfl h⟩
  · exact ⟨fun _ h => (nomatch h), fun _ => ⟨fault, rfl⟩⟩

/-- A batch of valid entries is applied. -/
theorem applyBatch_nil_of_valid (s : Store) (h : ∀ e ∈ es, entryFault? e = none) :
    s.applyBatch [] es
      = .ok ({ s.applyAll es with feed := s.feed.publish (es.map (·.collection)) },
          (s.applyEntries {} es).2) := by
  rw [applyBatch_eq, List.findSome?_eq_none_iff.2 h]
  rfl

/-- A batch without documents does what its entries do. -/
theorem eq_of_applyBatch_nil (h : s.applyBatch [] es = .ok (s', n)) :
    (∀ e ∈ es, entryFault? e = none) ∧
      s' = { s.applyAll es with feed := s.feed.publish (es.map (·.collection)) } := by
  obtain ⟨hvalid, hs', -⟩ := eq_of_applyBatch h
  exact ⟨hvalid, hs'⟩

/-- What is in the log stays there, whatever batch is applied. -/
theorem mem_log_of_applyBatch {documents : List Document} (h : s.applyBatch documents es = .ok (s', n))
    (hx : x ∈ s.log.toList) : x ∈ s'.log.toList := by
  obtain ⟨-, rfl, -⟩ := eq_of_applyBatch h
  apply mem_log_applyAll_of_mem (s := documents.foldl putDocument s)
  rwa [log_foldl_putDocument]

/-! ## Grown stores -/

/-- The stores that batches without documents make of an empty one. -/
inductive Grown (r : Resolver) : Store → Prop where
  /-- A new store. -/
  | empty : Grown r { resolver := r }
  /-- One more batch. -/
  | batch {s s' : Store} {es : List Entry} {n : Summary} (hs : Grown r s)
      (h : s.applyBatch [] es = .ok (s', n)) : Grown r s'

/-- What holds of an empty store and is kept by every valid entry, whatever is announced, holds of all grown
stores. -/
theorem Grown.induction {P : Store → Prop} (hempty : P { resolver := r })
    (hfeed : ∀ s f, P s → P { s with feed := f })
    (hentry : ∀ s e, s.resolver = r → entryFault? e = none → P s → P (s.applyEntry e))
    (h : Grown r s) : P s := by
  suffices hall : s.resolver = r ∧ P s from hall.2
  induction h with
  | empty => exact ⟨rfl, hempty⟩
  | @batch s s' es n hs h ih =>
    obtain ⟨hvalid, rfl⟩ := eq_of_applyBatch_nil h
    refine ⟨(resolver_applyAll s es).trans ih.1, hfeed _ _ ?_⟩
    -- within the batch the induction is on its entries
    clear h hs
    induction es generalizing s with
    | nil => exact ih.2
    | cons e es ih' =>
      refine ih' ⟨(resolver_applyEntry s e).trans ih.1, ?_⟩ fun a ha => hvalid a (List.mem_cons_of_mem e ha)
      exact hentry s e ih.1 (hvalid e List.mem_cons_self) ih.2

theorem Grown.resolver_eq (h : Grown r s) : s.resolver = r := by
  induction h with
  | empty => rfl
  | batch _ h ih =>
    obtain ⟨_, rfl⟩ := eq_of_applyBatch_nil h
    exact (resolver_applyAll _ _).trans ih

end Store

end DocMesh
