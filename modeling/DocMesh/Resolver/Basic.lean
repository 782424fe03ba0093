/-
# Conflict resolution

A resolver decides what an entry does to the document that it is about. It looks at nothing but the
document and the entry, so that all replicas decide alike.
-/
import DocMesh.Document.Basic
import DocMesh.Resolver.Merge

namespace DocMesh

/-- What an entry does to its document. -/
inductive Resolution where
  /-- The entry changes the document to this state. -/
  | apply (document : Document)
  /-- The entry changes nothing. -/
  | ignore
  deriving DecidableEq, Inhabited

/-- The document after a resolution. -/
def Resolution.after (before : Option Document) : Resolution → Option Document
  | apply document => some document
  | ignore => before

/-- The built-in resolvers. -/
inductive Resolver where
  /-- The newest write replaces the whole document. -/
  | lastWriteWins
  /-- Writes are merged field by field; deletions are decided as in `lastWriteWins`. -/
  | recursiveMerge
  deriving DecidableEq, Inhabited

namespace Resolver

/-! ## Codes and names -/

/-- The code of the resolver. -/
def code : Resolver → UInt8
  | lastWriteWins => 1
  | recursiveMerge => 2

/-- The resolver with the given code. -/
def ofCode? (n : UInt8) : Option Resolver :=
  [lastWriteWins, recursiveMerge].find? (·.code = n)

/-- The name of the resolver. -/
def name : Resolver → String
  | lastWriteWins => "lww"
  | recursiveMerge => "merge"

/-- All names of the resolver, the usual one first. -/
def names : Resolver → List String
  | lastWriteWins => ["lww", "last-write-wins"]
  | recursiveMerge => ["merge", "recursive-merge"]

/-- The text with its letters from A to Z in lower case. -/
def lowerCase (s : String) : String := String.ofList (s.toList.map Char.toLower)

/-- The resolver of the given name, in letters of either case. -/
def ofName? (s : String) : Option Resolver :=
  [lastWriteWins, recursiveMerge].find? fun r => r.names.contains (lowerCase s)

/-- What is said of a name that no resolver has. -/
def unknownName (s : String) : String := "unknown conflict resolver: " ++ lowerCase s

/-! ## Decisions -/

/-- What the entry does to the document when the newest write wins. -/
def resolveNewest (document : Option Document) (e : Entry) : Resolution :=
  match document with
  | none => .apply (.ofEntry e)
  | some d => if d.updatedAt < e.timestamp then .apply (.ofEntry e) else .ignore

/-- The document after a write has been merged into it. -/
def mergedDocument (d : Document) (e : Entry) : Document :=
  ⟨d.collection, d.key, d.content.merge (d.updatedAt < e.timestamp) e.content,
    max d.updatedAt e.timestamp, false⟩

/-- What the entry does to the document when writes are merged. -/
def resolveMerging (document : Option Document) (e : Entry) : Resolution :=
  match document, e.operation with
  | none, _ => .apply (.ofEntry e)
  | some d, .delete =>
    if d.updatedAt < e.timestamp then .apply (.tombstone e.collection e.key e.timestamp) else .ignore
  | some d, .put => .apply (mergedDocument d e)

/-- What the entry does to the document. -/
def resolve : Resolver → Option Document → Entry → Resolution
  | lastWriteWins => resolveNewest
  | recursiveMerge => resolveMerging

end Resolver

end DocMesh
