/-
# Entries on their way

An entry that is sent to a peer travels as a wire entry: its operation by name and its payload as text. Only the
payload can suffer on the way, when it nests too deep to be read again or holds a number that is not read as it
was written; the entry keeps its place in the log and its document.

Main statements:

* `toEntries_map_ofEntry` : what is read of entries that were sent;
* `toEntries_eq_ok`, `toEntry_eq_ok` : entries can be read exactly if each of them can;
* `wellFormed_of_toEntry` : an entry that is read has well-formed content;
* `id_carried` : an entry arrives with the id that it was sent with.
-/
import DocMesh.Message.WireEntry
import DocMesh.Proofs.Json.WellFormed

namespace DocMesh

namespace Entry

variable {e a : Entry} {es as : List Entry}

/-- The entry as a peer reads it from a message. One that cannot be read is left as it is. -/
def carried (e : Entry) : Entry :=
  match (WireEntry.ofEntry e).toEntry with
  | .ok a => a
  | .error _ => e

theorem carried_eq (h : (WireEntry.ofEntry e).toEntry = .ok a) : e.carried = a := by
  rw [carried, h]

/-- What is read of an entry that was sent. -/
theorem toEntry_ofEntry (e : Entry) :
    (WireEntry.ofEntry e).toEntry
      = (WireEntry.ofEntry e).content.map fun payload => { e with payload := payload } := by
  have hname : Operation.ofName? (WireEntry.ofEntry e).operation = some e.operation :=
    Operation.ofName?_name e.operation
  rw [WireEntry.toEntry, hname]
  rfl

/-- An entry differs in its payload only after it has been carried. -/
theorem exists_carried (e : Entry) : ∃ payload, e.carried = { e with payload := payload } := by
  rw [carried, toEntry_ofEntry]
  rcases (WireEntry.ofEntry e).content with fault | payload
  · exact ⟨e.payload, rfl⟩
  · exact ⟨payload, rfl⟩

/-- An entry that is read has well-formed content. -/
theorem wellFormed_of_toEntry {w : WireEntry} (h : w.toEntry = .ok e) : e.content.WellFormed := by
  rw [WireEntry.toEntry] at h
  rcases ho : Operation.ofName? w.operation with _ | operation
  · rw [ho] at h
    cases h
  · rw [ho] at h
    rcases hc : w.content with fault | payload
    · rw [hc] at h
      cases h
    · rw [hc] at h
      cases h
      rw [WireEntry.content] at hc
      rcases hw : w.payload with _ | text
      · rw [hw] at hc
        cases hc
        exact Json.wellFormed_emptyObject
      · rw [hw] at hc
        dsimp only at hc
        rcases hv : Json.parse? text with _ | v
        · rw [hv] at hc
          cases hc
        · rw [hv] at hc
          cases hc
          exact Json.wellFormed_of_parse? hv

@[simp] theorem id_carried (e : Entry) : e.carried.id = e.id := by
  obtain ⟨payload, h⟩ := e.exists_carried
  rw [h]
  rfl

@[simp] theorem timestamp_carried (e : Entry) : e.carried.timestamp = e.timestamp := by
  obtain ⟨payload, h⟩ := e.exists_carried
  rw [h]

@[simp] theorem documentId_carried (e : Entry) : e.carried.documentId = e.documentId := by
  obtain ⟨payload, h⟩ := e.exists_carried
  rw [h]
  rfl

/-- What is read of an entry with a payload. -/
theorem toEntry_ofEntry_of_payload {v : Json} (h : e.payload = some v) :
    (WireEntry.ofEntry e).toEntry
      = match Json.parse? v.text with
        | some w => .ok { e with payload := some w }
        | none => .error (.malformedEntry (e.collection ++ "/" ++ e.key ++ ": not a JSON text")) := by
  rw [toEntry_ofEntry, WireEntry.content, WireEntry.ofEntry, h]
  show Except.map _ (match Json.parse? v.text with | some v => _ | none => _) = _
  cases Json.parse? v.text <;> rfl

/-- An entry without a payload is read as it was sent. -/
theorem toEntry_ofEntry_of_payload_none (h : e.payload = none) : (WireEntry.ofEntry e).toEntry = .ok e := by
  rw [toEntry_ofEntry, WireEntry.content, WireEntry.ofEntry, h]
  show Except.ok { e with payload := none } = Except.ok e
  rw [← h]

/-- Entries that can be read are read as they are carried. -/
theorem toEntries_map_ofEntry (h : WireEntry.toEntries (es.map .ofEntry) = .ok as) :
    as = es.map carried := by
  induction es generalizing as with
  | nil =>
    cases h
    rfl
  | cons e es ih =>
    rw [List.map_cons, WireEntry.toEntries] at h
    rcases he : (WireEntry.ofEntry e).toEntry with fault | a
    · rw [he] at h
      cases h
    · rw [he] at h
      rcases hes : WireEntry.toEntries (es.map .ofEntry) with fault | bs
      · rw [hes] at h
        cases h
      · rw [hes] at h
        cases h
        rw [List.map_cons, carried_eq he, ih hes]

/-- Entries can be read if each of them can. -/
theorem toEntries_eq_ok (h : ∀ e ∈ es, (WireEntry.ofEntry e).toEntry = .ok e.carried) :
    WireEntry.toEntries (es.map .ofEntry) = .ok (es.map carried) := by
  induction es with
  | nil => rfl
  | cons e es ih =>
    rw [List.map_cons, WireEntry.toEntries, h e List.mem_cons_self,
      ih fun a ha => h a (List.mem_cons_of_mem e ha)]
    rfl

/-- Entries can be read only if each of them can. -/
theorem toEntry_eq_ok (h : WireEntry.toEntries (es.map .ofEntry) = .ok as) :
    ∀ e ∈ es, (WireEntry.ofEntry e).toEntry = .ok e.carried := by
  induction es generalizing as with
  | nil =>
    intro e he
    cases he
  | cons a es ih =>
    rw [List.map_cons, WireEntry.toEntries] at h
    rcases ha : (WireEntry.ofEntry a).toEntry with fault | a'
    · rw [ha] at h
      cases h
    rw [ha] at h
    rcases hes : WireEntry.toEntries (es.map .ofEntry) with fault | bs
    · rw [hes] at h
      cases h
    intro e he
    rcases List.mem_cons.1 he with rfl | he
    · rw [carried_eq ha]
      exact ha
    · exact ih hes e he

end Entry

end DocMesh
