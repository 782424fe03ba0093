/-
# Reports on a cycle

What is printed after a single cycle: as a text for people, or as an indented JSON text.
-/
import DocMesh.Json.Printer
import DocMesh.Sync.Gossip

namespace DocMesh

/-- What a cycle has come to. -/
structure Report where
  /-- The id of the node. -/
  node : String
  cycle : Cycle
  /-- The greatest timestamp in the log. -/
  latest : Timestamp
  /-- The documents, if they are asked for. -/
  documents : Option (List Document) := none

namespace Report

/-- The report on a cycle after which the node has the given database. -/
def ofCycle (db : Database) (cycle : Cycle) (withDocuments : Bool) : Except StoreError Report := do
  let latest ← db.latest
  let documents ← db.storage.read fun s => s.collections.flatMap s.liveDocuments
  return ⟨db.node, cycle, latest, if withDocuments then some documents else none⟩

/-! ## Records -/

/-- What was exchanged with a peer, as a record. -/
def syncedRecord : String × Transfer → Json
  | (peer, t) => .object [("node_id", peer), ("pulled", .ofInt t.pulled), ("pushed", .ofInt t.pushed)]

/-- Why nothing was exchanged with a peer, as a record. -/
def failureRecord : String × NetworkError → Json
  | (peer, e) => .object [("node_id", peer), ("category", e.category.name), ("error", e.message)]

/-- A document, as a record. -/
def documentRecord (d : Document) : Json :=
  .object [("collection", d.collection), ("key", d.key), ("content", d.content), ("updated_at", d.updatedAt.text)]

/-- The report as a record. -/
def record (r : Report) : Json :=
  .object ([("node_id", .string r.node), ("peers_selected", .ofInt r.cycle.selected),
    ("synced", .array (r.cycle.synced.map syncedRecord)), ("failures", .array (r.cycle.failures.map failureRecord)),
    ("latest_timestamp", .string r.latest.text)] ++
    (r.documents.map fun ds => ("documents", Json.array (ds.map documentRecord))).toList)

/-! ## Lines -/

/-- The text with blanks behind it, up to the given width. -/
def padRight (width : Nat) (s : String) : String := s ++ String.ofList (List.replicate (width - s.length) ' ')

/-- The text with blanks in front of it, up to the given width. -/
def padLeft (width : Nat) (s : String) : String := String.ofList (List.replicate (width - s.length) ' ') ++ s

/-- The line on a peer with which entries were exchanged. -/
def syncedLine : String × Transfer → String
  | (peer, t) => "  " ++ padRight 20 peer ++ " pulled " ++ padLeft 6 (toString t.pulled) ++ "  pushed " ++
      padLeft 6 (toString t.pushed)

/-- The line on a peer with which no entries could be exchanged. -/
def failureLine : String × NetworkError → String
  | (peer, e) => "  " ++ padRight 20 peer ++ " [" ++ e.category.name ++ "] " ++ e.message

/-- The line on a document. -/
def documentLine (d : Document) : String := "  " ++ d.collection ++ "/" ++ d.key ++ " = " ++ d.content.text

/-- A headline and the lines under it, behind an empty line. -/
def titled (title : String) (lines : List String) : List String :=
  if lines.isEmpty then [] else "" :: title :: lines

/-- The lines of the report. -/
def lines (r : Report) : List String :=
  ["Sync report for " ++ r.node, "==================", "  Peers selected:   " ++ toString r.cycle.selected,
    "  Latest timestamp: " ++ r.latest.text] ++
    titled "Synced:" (r.cycle.synced.map syncedLine) ++
    titled "Failures:" (r.cycle.failures.map failureLine) ++
    match r.documents with
    | some ds => "" :: "Documents:" :: ds.map documentLine
    | none => []

/-- Lines as a text. -/
def ofLines (ls : List String) : String := String.join (ls.map (· ++ "\n"))

/-- The report in the given format; any but `json` is the one for people. -/
def render (r : Report) (format : String) : String :=
  if format = "json" then r.record.indentedText ++ "\n" else ofLines r.lines

end Report

end DocMesh
