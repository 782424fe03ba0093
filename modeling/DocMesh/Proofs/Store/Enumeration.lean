/-
# Every live document is listed once

The documents of a store stand in one ascending list, collection by collection. The names of the collections are read
off it in a single pass, in which a name is compared with the last one found only; the documents of a collection are
read off it from the empty key on, up to the first document of another collection. Both find everything because the
list ascends: the documents of one collection stand next to each other, and no key comes before the empty one. What
stands in the list is what a program has stored, each document under its own names, whatever the resolver has made of
it.

Main statements:

* `pairwise_withoutRepeats`, `mem_withoutRepeats` : of names that ascend each is found once;
* `liveDocuments_eq_filter` : the documents of a collection are those that bear its name;
* `flatMap_liveDocuments` : the documents of all collections, one behind the other, are those of the store;
* `Holds.perform`, `Holds.run` : what stands under each id of a store after one change, and after a run;
* `live_documents_listed` : what is listed after a run is what the run has stored.
-/
import DocMesh.Proofs.Store.History
import Mathlib.Data.List.Induction
import Mathlib.Data.List.Pairwise
import Mathlib.Logic.Function.Basic

namespace DocMesh

/-! ## The order of documents -/

namespace DocumentId

variable {a b : DocumentId}

/-- Ids are ordered by collection, and within a collection by key. -/
theorem compare_eq_lt_iff :
    compare a b = .lt ↔ a.collection < b.collection ∨ a.collection = b.collection ∧ a.key < b.key := by
  rw [compare_def, Ordering.then_eq_lt, Std.LawfulEqCmp.compare_eq_iff_eq, compare_lt_iff_lt, compare_lt_iff_lt]

/-- The ids before the empty key of a collection are those of lesser collections. -/
theorem compare_empty_eq_lt_iff {collection : String} :
    compare a ⟨collection, ""⟩ = .lt ↔ a.collection < collection := by
  rw [compare_eq_lt_iff]
  constructor
  · rintro (hlt | ⟨-, hlt⟩)
    · exact hlt
    · exact absurd hlt (not_lt_empty a.key)
  · exact Or.inl

/-- Ids that ascend ascend by collection. -/
theorem collection_le_of_compare_eq_lt (h : compare a b = .lt) : a.collection ≤ b.collection := by
  rcases compare_eq_lt_iff.1 h with hlt | ⟨heq, -⟩
  · exact hlt.le
  · exact heq.le

end DocumentId

namespace Store

variable {r : Resolver} {s : Store} {names : List String} {name collection : String}

/-! ## Names without repeats -/

theorem withoutRepeats_concat (names : List String) (name : String) :
    withoutRepeats (names ++ [name])
      = if (withoutRepeats names).getLast? = some name then withoutRepeats names
        else withoutRepeats names ++ [name] := by
  rw [withoutRepeats, List.foldl_append]
  rfl

/-- The last name is kept. -/
theorem getLast?_withoutRepeats (names : List String) : (withoutRepeats names).getLast? = names.getLast? := by
  cases names using List.reverseRecOn with
  | nil => rfl
  | append_singleton names last =>
    rw [withoutRepeats_concat, List.getLast?_concat]
    split_ifs with hlast
    · exact hlast
    · exact List.getLast?_concat

/-- No name is lost, and none comes from elsewhere. -/
theorem mem_withoutRepeats : name ∈ withoutRepeats names ↔ name ∈ names := by
  induction names using List.reverseRecOn with
  | nil => exact Iff.rfl
  | append_singleton names last ih =>
    rw [withoutRepeats_concat, List.mem_append, List.mem_singleton, ← ih]
    split_ifs with hlast
    · exact ⟨Or.inl, fun h => h.elim id fun heq => heq ▸ List.mem_of_getLast? hlast⟩
    · rw [List.mem_append, List.mem_singleton]

/-- Of names that ascend each is kept once. -/
theorem pairwise_withoutRepeats (h : names.Pairwise (· ≤ ·)) : (withoutRepeats names).Pairwise (· < ·) := by
  induction names using List.reverseRecOn with
  | nil => exact List.Pairwise.nil
  | append_singleton names last ih =>
    obtain ⟨hnames, -, hle⟩ := List.pairwise_append.1 h
    rw [withoutRepeats_concat]
    split_ifs with hlast
    · exact ih hnames
    · refine List.pairwise_append.2 ⟨ih hnames, List.pairwise_singleton _ last, ?_⟩
      intro a ha b hb
      rw [List.mem_singleton.1 hb]
      -- no name is after the one right before the new one, and this is a lesser one
      have ha : a ∈ names := mem_withoutRepeats.1 ha
      have hne : names ≠ [] := List.ne_nil_of_mem ha
      have hprevious : names.getLast hne ≠ last := by
        intro heq
        rw [getLast?_withoutRepeats, List.getLast?_eq_some_getLast hne, heq] at hlast
        exact hlast rfl
      have hlt : names.getLast hne < last :=
        lt_of_le_of_ne (hle _ (List.getLast_mem hne) last List.mem_cons_self) hprevious
      exact lt_of_le_of_lt (hnames.rel_getLast ha) hlt

/-! ## Collections and their documents -/

/-- The documents of a store ascend by collection. -/
theorem pairwise_documents (s : Store) : s.documents.toList.Pairwise fun a b => a.collection ≤ b.collection :=
  s.documents.ascending.imp DocumentId.collection_le_of_compare_eq_lt

/-- **The collections** are those of the documents, tombstones included. -/
theorem mem_collections : collection ∈ s.collections ↔ ∃ key d, s.document? collection key = some d := by
  rw [collections, mem_withoutRepeats, List.mem_map]
  constructor
  · rintro ⟨d, hd, rfl⟩
    exact ⟨d.key, d, Ordered.find?_of_mem hd⟩
  · rintro ⟨key, d, hd⟩
    exact ⟨d, Ordered.mem_of_find? hd, congrArg DocumentId.collection (id_of_find? hd)⟩

/-- The names of the collections ascend, so that each is named once. -/
theorem pairwise_collections (s : Store) : s.collections.Pairwise (· < ·) :=
  pairwise_withoutRepeats (List.pairwise_map.2 s.pairwise_documents)

/-- From the empty key of a collection on there are the documents of this collection and of greater ones. -/
theorem rangeFrom_empty (s : Store) (collection : String) :
    s.documents.rangeFrom ⟨collection, ""⟩ = s.documents.toList.filter fun d => collection ≤ d.collection := by
  rw [Ordered.rangeFrom_eq_filter]
  refine List.filter_congr fun d _ => ?_
  rw [Bool.eq_iff_iff, bne_iff_ne, Ne, DocumentId.compare_empty_eq_lt_iff, not_lt, decide_eq_true_iff]
  rfl

/-- **The documents of a collection** are those that bear its name and are no tombstones. -/
theorem liveDocuments_eq_filter (s : Store) (collection : String) :
    s.liveDocuments collection
      = s.documents.toList.filter fun d => d.collection = collection && !d.deleted := by
  -- no greater collection comes before a document of this one
  have hfirst : (s.documents.toList.filter fun d => collection ≤ d.collection).Pairwise fun a b =>
      decide (b.collection = collection) → decide (a.collection = collection) := by
    refine (s.pairwise_documents.filter _).imp_of_mem ?_
    intro a b ha _ hab hb
    have hge : collection ≤ a.collection := of_decide_eq_true (List.mem_filter.1 ha).2
    rw [of_decide_eq_true hb] at hab
    exact decide_eq_true (le_antisymm hab hge)
  rw [liveDocuments, rangeFrom_empty, takeWhile_eq_filter hfirst, List.filter_filter, List.filter_filter]
  refine List.filter_congr fun d _ => ?_
  by_cases hd : d.collection = collection
  · simp [hd]
  · simp [hd]

theorem mem_liveDocuments {d : Document} :
    d ∈ s.liveDocuments collection ↔ d ∈ s.documents.toList ∧ d.collection = collection ∧ d.deleted = false := by
  rw [liveDocuments_eq_filter, List.mem_filter, Bool.and_eq_true, decide_eq_true_iff, Bool.not_eq_true']

/-- **All live documents**: listed collection by collection, they are those of the store, in its order. -/
theorem flatMap_liveDocuments (s : Store) :
    s.collections.flatMap s.liveDocuments = (s.documents.filter (!·.deleted)).toList := by
  have hascending : Ascending Document.id (s.collections.flatMap s.liveDocuments) := by
    refine List.pairwise_flatMap.2 ⟨?_, s.pairwise_collections.imp ?_⟩
    · intro collection _
      rw [liveDocuments_eq_filter]
      exact s.documents.ascending.filter _
    · intro c c' hlt a ha b hb
      obtain ⟨-, rfl, -⟩ := mem_liveDocuments.1 ha
      obtain ⟨-, rfl, -⟩ := mem_liveDocuments.1 hb
      exact DocumentId.compare_eq_lt_iff.2 (Or.inl hlt)
  -- two lists of the same documents that both ascend are one
  refine congrArg Ordered.toList (Ordered.eq_of_mem_iff (s := ⟨_, hascending⟩) ?_)
  intro d
  show d ∈ s.collections.flatMap s.liveDocuments ↔ d ∈ s.documents.toList.filter (!·.deleted)
  rw [List.mem_flatMap, List.mem_filter, Bool.not_eq_true']
  constructor
  · rintro ⟨collection, -, hd⟩
    obtain ⟨hmem, -, hlive⟩ := mem_liveDocuments.1 hd
    exact ⟨hmem, hlive⟩
  · rintro ⟨hmem, hlive⟩
    exact ⟨d.collection, mem_collections.2 ⟨d.key, d, Ordered.find?_of_mem hmem⟩, mem_liveDocuments.2 ⟨hmem, rfl, hlive⟩⟩

/-! ## What a program stores -/

/-- What stands under each id, whatever names it bears itself. -/
abbrev Table := DocumentId → Option Document

namespace Table

/-- Nothing stands anywhere. -/
def empty : Table := fun _ => none

/-- The document comes to stand under the id. -/
def store (t : Table) (id : DocumentId) (d : Document) : Table := Function.update t id (some d)

/-- What the resolver makes of an entry comes to stand under the id of the entry. -/
def applyEntry (r : Resolver) (t : Table) (e : Entry) : Table :=
  match r.resolve (t e.documentId) e with
  | .apply d => t.store e.documentId d
  | .ignore => t

/-- The documents of a batch come to stand under their ids, and then its entries are applied, unless the batch is
refused. -/
def perform (r : Resolver) (t : Table) : Change → Table
  | .batch documents entries =>
    if ∀ e ∈ entries, entryFault? e = none then
      entries.foldl (applyEntry r) (documents.foldl (fun t d => t.store d.id d) t)
    else t
  | .document d => t.store d.id d
  | .peer _ | .noPeer _ => t

/-- What stands where after the given changes, one after the other. -/
def run (r : Resolver) (t : Table) (changes : List Change) : Table := changes.foldl (perform r) t

end Table

/-- The store holds under each id what stands there. -/
def Holds (s : Store) (t : Table) : Prop := ∀ id, s.documents.find? id = t id

variable {t : Table}

theorem holds_empty (r : Resolver) : Holds { resolver := r } .empty := fun _ => rfl

theorem Holds.putDocument (h : s.Holds t) (d : Document) : (s.putDocument d).Holds (t.store d.id d) := by
  intro id
  rw [Store.putDocument, Ordered.find?_insert, Table.store, Function.update_apply, h id]
  exact if_congr eq_comm rfl rfl

/-- An entry is resolved to a document of its own id, so that the names of a document and the place where it stands
never part. -/
theorem Holds.applyEntry (h : s.Holds t) (e : Entry) : (s.applyEntry e).Holds (t.applyEntry s.resolver e) := by
  intro id
  rw [find?_applyEntry, h id, Table.applyEntry]
  by_cases hid : e.documentId = id
  · subst hid
    rw [if_pos rfl]
    rcases s.resolver.resolve (t e.documentId) e with d | _
    · exact (Function.update_self e.documentId (some d) t).symm
    · rfl
  · rw [if_neg hid]
    rcases s.resolver.resolve (t e.documentId) e with d | _
    · exact (Function.update_of_ne (Ne.symm hid) (some d) t).symm
    · rfl

theorem Holds.foldl_putDocument (h : s.Holds t) (documents : List Document) :
    (documents.foldl Store.putDocument s).Holds (documents.foldl (fun t d => t.store d.id d) t) := by
  induction documents generalizing s t with
  | nil => exact h
  | cons d documents ih => exact ih (h.putDocument d)

theorem Holds.applyAll (h : s.Holds t) (es : List Entry) :
    (s.applyAll es).Holds (es.foldl (Table.applyEntry s.resolver) t) := by
  induction es generalizing s t with
  | nil => exact h
  | cons e es ih =>
    have hes := ih (h.applyEntry e)
    rw [resolver_applyEntry] at hes
    exact hes

/-- **One change** stores the same documents in the store and in the table. -/
theorem Holds.perform (h : s.Holds t) (c : Change) : (s.perform c).Holds (t.perform s.resolver c) := by
  cases c with
  | batch documents entries =>
    rw [perform_batch, Table.perform]
    split_ifs
    · have hentries := (h.foldl_putDocument documents).applyAll entries
      rw [resolver_foldl_putDocument] at hentries
      exact hentries
    · exact h
  | document d => exact h.putDocument d
  | peer p =>
    obtain ⟨peers, hpeers⟩ := s.exists_perform_peer_eq p
    rw [hpeers]
    exact h
  | noPeer id => exact h

/-- **A run** stores the same documents in the store and in the table. -/
theorem Holds.run (h : s.Holds t) (changes : List Change) : (s.run changes).Holds (t.run s.resolver changes) := by
  induction changes generalizing s t with
  | nil => exact h
  | cons c changes ih =>
    have hchanges := ih (h.perform c)
    rw [resolver_perform] at hchanges
    exact hchanges

/-! ## What is listed -/

/-- **Every live document is listed once.** Whatever a program does with a store that was new, under each collection and
key there is what the program has stored there last, and it bears these names. Exactly the collections with a document
or a tombstone are named, each once, in ascending order. The documents of these collections, one collection behind the
other, are exactly the live documents, each once, in ascending order of collection and key. -/
theorem live_documents_listed (r : Resolver) (changes : List Change) :
    let s : Store := run { resolver := r } changes
    let stored : Table := Table.run r .empty changes
    let listed := s.collections.flatMap s.liveDocuments
    (∀ collection key, s.document? collection key = stored ⟨collection, key⟩) ∧
      (∀ collection key d, stored ⟨collection, key⟩ = some d → d.collection = collection ∧ d.key = key) ∧
      s.collections.Pairwise (· < ·) ∧
      (∀ collection, collection ∈ s.collections ↔ ∃ key d, stored ⟨collection, key⟩ = some d) ∧
      (listed.Pairwise fun a b => a.collection < b.collection ∨ a.collection = b.collection ∧ a.key < b.key) ∧
      ∀ d, d ∈ listed ↔ stored ⟨d.collection, d.key⟩ = some d ∧ d.deleted = false := by
  intro s stored listed
  have hholds : ∀ id, s.documents.find? id = stored id := (holds_empty r).run changes
  have hlisted : listed = (s.documents.filter (!·.deleted)).toList := s.flatMap_liveDocuments
  refine ⟨fun collection key => hholds ⟨collection, key⟩, ?_, s.pairwise_collections, ?_, ?_, ?_⟩
  · intro collection key d hd
    rw [← hholds] at hd
    exact DocumentId.mk.inj (id_of_find? hd)
  · intro collection
    rw [mem_collections]
    exact exists_congr fun key => exists_congr fun d => by rw [document?, hholds]
  · rw [hlisted]
    exact (s.documents.filter _).ascending.imp DocumentId.compare_eq_lt_iff.1
  · intro d
    rw [hlisted, ← hholds]
    show d ∈ s.documents.toList.filter (!·.deleted) ↔ _
    rw [List.mem_filter, Ordered.mem_iff_find?, Bool.not_eq_true']
    rfl

/-- Names that begin alike, an empty name, an empty key, a collection with nothing but a tombstone, and a batch that is
refused. -/
example :
    let d (collection key : String) : Document := ⟨collection, key, .ofInt 1, ⟨1, 0, "a"⟩, false⟩
    let s : Store := run { resolver := .recursiveMerge }
      [.document (d "ab" "x"), .batch [d "a" "", d "" "x", d "b" "x"] [.put "a" "b" (.ofInt 2) ⟨2, 0, "a"⟩],
        .batch [] [.delete "b" "x" ⟨3, 0, "a"⟩], .batch [d "c" "x"] [.delete "" "x" ⟨4, 0, "a"⟩]]
    s.collections = ["", "a", "ab", "b"] ∧
      (s.collections.flatMap s.liveDocuments).map Document.id = [⟨"", "x"⟩, ⟨"a", ""⟩, ⟨"a", "b"⟩, ⟨"ab", "x"⟩] := by
  decide +kernel

end Store

end DocMesh
