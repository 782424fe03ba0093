/-
# Documents and log entries

A document is what a replica shows for one key of one collection; an entry is one change to it, as the
log keeps it. A deleted document stays as a tombstone, so that older changes to it are still recognised.
-/
import DocMesh.Clock.Timestamp
import DocMesh.Json.Basic

namespace DocMesh

/-! ## Names of documents -/

/-- What a document is found by: its collection and its key there. -/
structure DocumentId where
  collection : String
  key : String
  deriving DecidableEq, Inhabited

namespace DocumentId

instance : Ord DocumentId := ⟨compareLex (compareOn collection) (compareOn key)⟩

instance : Std.TransOrd DocumentId :=
  inferInstanceAs (Std.TransCmp (compareLex (compareOn collection) (compareOn key)))

theorem compare_def (a b : DocumentId) :
    compare a b = (compare a.collection b.collection).then (compare a.key b.key) := rfl

instance : Std.LawfulEqOrd DocumentId where
  compare_self {a} := by simp
  eq_of_compare {a b} h := by
    rw [compare_def, Ordering.then_eq_eq] at h
    obtain ⟨h₁, h₂⟩ := h
    cases a; cases b
    simp_all

end DocumentId

/-! ## Operations -/

/-- The kind of a change. -/
inductive Operation where
  /-- Inserts or replaces a document. -/
  | put
  /-- Deletes a document and leaves a tombstone. -/
  | delete
  deriving DecidableEq, Inhabited

namespace Operation

/-- The name that stands in messages. -/
def name : Operation → String
  | put => "Put"
  | delete => "Delete"

/-- The operation of the given name. -/
def ofName? (s : String) : Option Operation :=
  if s = put.name then some put else if s = delete.name then some delete else none

/-- What is said of a name that no operation has. -/
def unknownName (s : String) : String := "unknown operation: " ++ s

@[simp] theorem ofName?_name (o : Operation) : ofName? o.name = some o := by cases o <;> rfl

end Operation

/-! ## Entries -/

/-- One change in the log. -/
structure Entry where
  collection : String
  key : String
  operation : Operation
  /-- The new content; nothing for most deletions. -/
  payload : Option Json
  /-- When and where the change was made. -/
  timestamp : Timestamp
  deriving DecidableEq, Inhabited

/-- What an entry is found by in the log. -/
structure EntryId where
  timestamp : Timestamp
  collection : String
  key : String
  deriving DecidableEq, Inhabited

namespace EntryId

instance : Ord EntryId :=
  ⟨compareLex (compareOn timestamp) (compareLex (compareOn collection) (compareOn key))⟩

instance : Std.TransOrd EntryId :=
  inferInstanceAs (Std.TransCmp (compareLex (compareOn timestamp)
    (compareLex (compareOn collection) (compareOn key))))

theorem compare_def (a b : EntryId) :
    compare a b = (compare a.timestamp b.timestamp).then
      ((compare a.collection b.collection).then (compare a.key b.key)) := rfl

instance : Std.LawfulEqOrd EntryId where
  compare_self {a} := by simp
  eq_of_compare {a b} h := by
    rw [compare_def, Ordering.then_eq_eq, Ordering.then_eq_eq] at h
    obtain ⟨h₁, h₂, h₃⟩ := h
    cases a; cases b
    simp_all

end EntryId

namespace Entry

/-- The change that writes a document. -/
def put (collection key : String) (payload : Json) (timestamp : Timestamp) : Entry :=
  ⟨collection, key, .put, some payload, timestamp⟩

/-- The change that deletes a document. -/
def delete (collection key : String) (timestamp : Timestamp) : Entry :=
  ⟨collection, key, .delete, none, timestamp⟩

/-- The document that the entry changes. -/
def documentId (e : Entry) : DocumentId := ⟨e.collection, e.key⟩

/-- The entry's place in the log. -/
def id (e : Entry) : EntryId := ⟨e.timestamp, e.collection, e.key⟩

/-- The content that the entry describes. -/
def content (e : Entry) : Json := e.payload.getD Json.emptyObject

end Entry

/-! ## Documents -/

/-- The state of one key of one collection. -/
structure Document where
  collection : String
  key : String
  /-- The content; the empty object in most tombstones. -/
  content : Json
  /-- When and where the last change that counts was made. -/
  updatedAt : Timestamp
  /-- Is this a tombstone? -/
  deleted : Bool
  deriving DecidableEq, Inhabited

namespace Document

/-- What the document is found by. -/
def id (d : Document) : DocumentId := ⟨d.collection, d.key⟩

/-- The state that an entry describes when nothing is known about its document. -/
def ofEntry (e : Entry) : Document :=
  ⟨e.collection, e.key, e.content, e.timestamp, e.operation = .delete⟩

/-- What is left of a deleted document. -/
def tombstone (collection key : String) (deletedAt : Timestamp) : Document :=
  ⟨collection, key, Json.emptyObject, deletedAt, true⟩

@[simp] theorem id_ofEntry (e : Entry) : (ofEntry e).id = e.documentId := rfl

end Document

end DocMesh
