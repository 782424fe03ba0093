/-
# Bodies of messages

Every message is read back from its body, if the lengths in the body have room where they are written: a length is
written as a number of 64 bits. A record is read field by field; what the fields hold is read as the type that was
written.

Main statements:

* `Timestamp.ofItem?_item`, `WireEntry.ofItem?_item` : timestamps and entries are read back from their items;
* `Message.ofItem?_item?` : a message is read back from the item of its body;
* `Message.decode_encode` : a message is read back from a body that is not too long;
* `Message.body_read_back` : a message is read back from its body if no text and no list in it is too long.
-/
import DocMesh.Message.Basic
import DocMesh.Proofs.Cbor.RoundTrip

namespace DocMesh

open Cbor (Item)

/-! ## Values -/

namespace Cbor.Item

variable {α : Type}

@[simp] theorem text?_ofString (s : String) : (ofString s).text? = some s := by
  simp [text?, ofString, untagged]

@[simp] theorem bool?_ofBool (b : Bool) : (ofBool b).bool? = some b := by
  cases b <;> simp [bool?, ofBool, untagged]

@[simp] theorem optional?_ofOption (o : Option String) : (ofOption ofString o).optional? text? = some o := by
  cases o with
  | none => rfl
  | some s => simp [ofOption, optional?, ofString, text?, untagged]

@[simp] theorem list?_array (items : List Item) : (array items).list? = some items := by
  simp [list?, untagged]

theorem intBetween?_integer {low high n : Int} (hlow : low ≤ n) (hhigh : n ≤ high) :
    (integer n).intBetween? low high = some n := by
  simp [intBetween?, int?, hlow, hhigh]

@[simp] theorem numbersFit_ofString (s : String) : (ofString s).NumbersFit := trivial

@[simp] theorem numbersFit_ofBool (b : Bool) : (ofBool b).NumbersFit := by
  cases b <;> exact (show _ < UInt8.size by decide)

@[simp] theorem numbersFit_ofOption (o : Option String) : (ofOption ofString o).NumbersFit := by
  cases o with
  | none => exact (show 22 < UInt8.size by decide)
  | some s => trivial

@[simp] theorem fits_ofString {s : String} (h : s.utf8ByteSize < headLimit) : (ofString s).Fits := by
  rw [ofString, Fits, Bytes.length_ofString]
  exact h

@[simp] theorem fits_ofBool (b : Bool) : (ofBool b).Fits := by
  cases b <;> exact (show _ < UInt8.size by decide)

@[simp] theorem fits_ofOption {o : Option String} (h : ∀ s ∈ o, s.utf8ByteSize < headLimit) :
    (ofOption ofString o).Fits := by
  cases o with
  | none => exact (show 22 < UInt8.size by decide)
  | some s => exact fits_ofString (h s rfl)

/-- A list has room for its items if it is short and each of the items has. -/
theorem fits_map {write : α → Item} {as : List α} (hlength : as.length < headLimit)
    (h : ∀ a ∈ as, (write a).Fits) : (array (as.map write)).Fits := by
  have hitems : ItemsFit (as.map write) := by
    clear hlength
    induction as with
    | nil => trivial
    | cons a as ih =>
      rw [List.forall_mem_cons] at h
      exact ⟨h.1, ih h.2⟩
  refine ⟨?_, hitems⟩
  rw [List.length_map]
  exact hlength

@[simp] theorem numbersFit_map {write : α → Item} (h : ∀ a, (write a).NumbersFit) (as : List α) :
    (array (as.map write)).NumbersFit := by
  refine allNumbersFit_of_forall ?_
  intro i hi
  obtain ⟨a, -, rfl⟩ := List.mem_map.1 hi
  exact h a

/-- The fields of a record are read back under their names. -/
theorem fields?_record_of_names {names : List String} {fs : List (String × Item)} (level : Nat)
    (hfs : fs.map Prod.fst = names) (hnames : names.Nodup ∧ ∀ name ∈ names, name.utf8ByteSize ≤ nameLimit) :
    (record fs).fields? level names = some (fs.map fun f => some f.2) := by
  subst hfs
  exact fields?_record level fs hnames.1 hnames.2

/-- A record has room for its fields if each of them has. -/
theorem fits_record_of_names (names : List String) {fs : List (String × Item)} (hfs : fs.map Prod.fst = names)
    (hnames : names.length < headLimit ∧ ∀ name ∈ names, name.utf8ByteSize ≤ nameLimit)
    (h : ∀ i ∈ fs.map Prod.snd, i.Fits) : (record fs).Fits := by
  subst hfs
  rw [List.length_map] at hnames
  exact fits_record hnames.1 hnames.2 h

end Cbor.Item

/-! ## Timestamps and entries -/

namespace Timestamp

/-- A timestamp is read back from its item. -/
@[simp] theorem ofItem?_item (level : Nat) (t : Timestamp) : ofItem? level t.item = some t := by
  have hphysical : (Item.integer t.physical.toInt).intBetween? Int64.minValue.toInt Int64.maxValue.toInt
      = some t.physical.toInt := Item.intBetween?_integer (Int64.le_toInt _) (Int64.toInt_le _)
  have hcounter : (Item.integer t.counter.toInt).intBetween? Int32.minValue.toInt Int32.maxValue.toInt
      = some t.counter.toInt := Item.intBetween?_integer (Int32.le_toInt _) (Int32.toInt_le _)
  rw [ofItem?, item, Item.fields?_record_of_names level]
  · simp only [List.map_cons, List.map_nil, Option.bind_eq_bind, Option.bind_some, hphysical, hcounter,
      Item.text?_ofString, Int64.ofInt_toInt, Int32.ofInt_toInt]
  · rfl
  · decide

theorem fits_physical (t : Timestamp) : (Item.integer t.physical.toInt).Fits := by
  have hlimit : Cbor.headLimit = 18446744073709551616 := by decide
  have hlow := t.physical.le_toInt
  have hhigh := t.physical.toInt_lt
  show _ ∧ _
  omega

theorem fits_counter (t : Timestamp) : (Item.integer t.counter.toInt).Fits := by
  have hlimit : Cbor.headLimit = 18446744073709551616 := by decide
  have hlow := t.counter.le_toInt
  have hhigh := t.counter.toInt_lt
  show _ ∧ _
  omega

@[simp] theorem numbersFit_item (t : Timestamp) : t.item.NumbersFit := by
  apply Item.numbersFit_record
  simp only [List.map_cons, List.map_nil, List.forall_mem_cons]
  exact ⟨t.fits_physical, t.fits_counter, Item.numbersFit_ofString _, List.forall_mem_nil _⟩

theorem fits_item {t : Timestamp} (h : t.node.utf8ByteSize < Cbor.headLimit) : t.item.Fits := by
  refine Item.fits_record_of_names ["physical_time", "logical_counter", "node_id"] rfl (by decide) ?_
  simp only [List.map_cons, List.map_nil, List.forall_mem_cons]
  exact ⟨t.fits_physical, t.fits_counter, Item.fits_ofString h, List.forall_mem_nil _⟩

end Timestamp

namespace WireEntry

/-- An entry is read back from its item. -/
@[simp] theorem ofItem?_item (level : Nat) (w : WireEntry) : ofItem? level w.item = some w := by
  rw [ofItem?, item, Item.fields?_record_of_names level]
  · simp
  · rfl
  · decide

@[simp] theorem numbersFit_item (w : WireEntry) : w.item.NumbersFit := by
  apply Item.numbersFit_record
  simp [Timestamp.numbersFit_item]

/-- The texts in an entry. -/
def texts (w : WireEntry) : List String :=
  w.collection :: w.key :: w.operation :: w.timestamp.node :: w.payload.toList

theorem fits_item {w : WireEntry} (h : ∀ s ∈ w.texts, s.utf8ByteSize < Cbor.headLimit) : w.item.Fits := by
  simp only [texts, List.forall_mem_cons, Option.mem_toList] at h
  obtain ⟨hcollection, hkey, hoperation, hnode, hpayload⟩ := h
  refine Item.fits_record_of_names ["collection", "key", "operation", "json_data", "timestamp"]
    rfl (by decide) ?_
  simp only [List.map_cons, List.map_nil, List.forall_mem_cons]
  exact ⟨Item.fits_ofString hcollection, Item.fits_ofString hkey, Item.fits_ofString hoperation,
    Item.fits_ofOption hpayload, Timestamp.fits_item hnode, List.forall_mem_nil _⟩

end WireEntry

/-! ## Introductions -/

namespace HandshakeRequest

/-- An introduction is read back from its item. -/
theorem ofItem?_item (q : HandshakeRequest) : ofItem? q.item = some q := by
  rw [ofItem?, item, Item.fields?_record_of_names 1]
  · simp [mapM_map_of_inverse Item.text?_ofString]
  · rfl
  · decide

theorem numbersFit_item (q : HandshakeRequest) : q.item.NumbersFit := by
  apply Item.numbersFit_record
  simp [Item.numbersFit_map Item.numbersFit_ofString]

/-- The texts in an introduction. -/
def texts (q : HandshakeRequest) : List String := q.node :: q.token :: q.compression

theorem fits_item {q : HandshakeRequest} (h : ∀ s ∈ q.texts, s.utf8ByteSize < Cbor.headLimit)
    (hlength : q.compression.length < Cbor.headLimit) : q.item.Fits := by
  simp only [texts, List.forall_mem_cons] at h
  obtain ⟨hnode, htoken, hcompression⟩ := h
  refine Item.fits_record_of_names ["node_id", "auth_token", "supported_compression"]
    rfl (by decide) ?_
  simp only [List.map_cons, List.map_nil, List.forall_mem_cons]
  exact ⟨Item.fits_ofString hnode, Item.fits_ofString htoken,
    Item.fits_map hlength fun s hs => Item.fits_ofString (hcompression s hs), List.forall_mem_nil _⟩

end HandshakeRequest

namespace HandshakeResponse

/-- The answer to an introduction is read back from its item. -/
theorem ofItem?_item (a : HandshakeResponse) : ofItem? a.item = some a := by
  rw [ofItem?, item, Item.fields?_record_of_names 1]
  · simp
  · rfl
  · decide

theorem numbersFit_item (a : HandshakeResponse) : a.item.NumbersFit := by
  apply Item.numbersFit_record
  simp

/-- The texts in the answer to an introduction. -/
def texts (a : HandshakeResponse) : List String := a.node :: (a.compression.toList ++ a.reason.toList)

theorem fits_item {a : HandshakeResponse} (h : ∀ s ∈ a.texts, s.utf8ByteSize < Cbor.headLimit) : a.item.Fits := by
  simp only [texts, List.forall_mem_cons, List.forall_mem_append, Option.mem_toList] at h
  obtain ⟨hnode, hcompression, hreason⟩ := h
  refine Item.fits_record_of_names ["node_id", "accepted", "selected_compression", "reason"]
    rfl (by decide) ?_
  simp only [List.map_cons, List.map_nil, List.forall_mem_cons]
  exact ⟨Item.fits_ofString hnode, Item.fits_ofBool _, Item.fits_ofOption hcompression,
    Item.fits_ofOption hreason, List.forall_mem_nil _⟩

end HandshakeResponse

/-! ## Messages -/

namespace Message

theorem timestampOfItem?_timestampItem (t : Timestamp) {name : String} (h : name.utf8ByteSize ≤ Cbor.nameLimit) :
    timestampOfItem? name (timestampItem name t) = some t := by
  rw [timestampOfItem?, timestampItem, Item.fields?_record_of_names 1]
  · simp
  · rfl
  · simpa using h

theorem numbersFit_timestampItem (name : String) (t : Timestamp) : (timestampItem name t).NumbersFit := by
  apply Item.numbersFit_record
  simp

theorem fits_timestampItem {name : String} {t : Timestamp} (hname : name.utf8ByteSize ≤ Cbor.nameLimit)
    (h : t.node.utf8ByteSize < Cbor.headLimit) : (timestampItem name t).Fits := by
  refine Item.fits_record_of_names [name] rfl ⟨by simp [Cbor.headLimit], by simpa using hname⟩ ?_
  simpa using Timestamp.fits_item h

theorem entriesOfItem?_entriesItem (entries : List WireEntry) :
    entriesOfItem? (entriesItem entries) = some entries := by
  rw [entriesOfItem?, entriesItem, Item.fields?_record_of_names 1]
  · simp [mapM_map_of_inverse (WireEntry.ofItem?_item 3)]
  · rfl
  · decide

theorem numbersFit_entriesItem (entries : List WireEntry) : (entriesItem entries).NumbersFit := by
  apply Item.numbersFit_record
  simp [Item.numbersFit_map WireEntry.numbersFit_item]

theorem fits_entriesItem {entries : List WireEntry} (hlength : entries.length < Cbor.headLimit)
    (h : ∀ w ∈ entries, ∀ s ∈ w.texts, s.utf8ByteSize < Cbor.headLimit) : (entriesItem entries).Fits := by
  refine Item.fits_record_of_names ["entries"] rfl (by decide) ?_
  simpa using Item.fits_map hlength fun w hw => WireEntry.fits_item (h w hw)

theorem acknowledgementOfItem?_acknowledgementItem (success : Bool) (error : Option String) :
    acknowledgementOfItem? (acknowledgementItem success error) = some (.acknowledgement success error) := by
  rw [acknowledgementOfItem?, acknowledgementItem, Item.fields?_record_of_names 1]
  · simp
  · rfl
  · decide

theorem numbersFit_acknowledgementItem (success : Bool) (error : Option String) :
    (acknowledgementItem success error).NumbersFit := by
  apply Item.numbersFit_record
  simp

theorem fits_acknowledgementItem {success : Bool} {error : Option String}
    (h : ∀ s ∈ error, s.utf8ByteSize < Cbor.headLimit) : (acknowledgementItem success error).Fits := by
  refine Item.fits_record_of_names ["success", "error"] rfl (by decide) ?_
  simp only [List.map_cons, List.map_nil, List.forall_mem_cons]
  exact ⟨Item.fits_ofBool success, Item.fits_ofOption h, List.forall_mem_nil _⟩

/-! ## The item of a body -/

/-- The item whose written form is the body of the message. The request for the clock has none. -/
def item? : Message → Option Item
  | handshakeRequest q => some q.item
  | handshakeResponse a => some a.item
  | clockRequest => none
  | clockResponse t => some (timestampItem "timestamp" t)
  | pullRequest t => some (timestampItem "since" t)
  | changeSet entries | pushRequest entries => some (entriesItem entries)
  | acknowledgement success error => some (acknowledgementItem success error)

theorem encode_eq (m : Message) : m.encode = (m.item?.map Item.encode).getD [] := by cases m <;> rfl

theorem item?_eq_none_iff {m : Message} : m.item? = none ↔ m = clockRequest := by cases m <;> simp [item?]

/-- A message is read back from the item of its body. -/
theorem ofItem?_item? {m : Message} {i : Item} (h : m.item? = some i) : ofItem? m.kind i = some m := by
  cases m with
  | clockRequest => cases h
  | handshakeRequest q =>
    cases h
    rw [kind, ofItem?, q.ofItem?_item, Option.map_some]
  | handshakeResponse a =>
    cases h
    rw [kind, ofItem?, a.ofItem?_item, Option.map_some]
  | clockResponse t =>
    cases h
    rw [kind, ofItem?, timestampOfItem?_timestampItem t (by decide), Option.map_some]
  | pullRequest t =>
    cases h
    rw [kind, ofItem?, timestampOfItem?_timestampItem t (by decide), Option.map_some]
  | changeSet entries =>
    cases h
    rw [kind, ofItem?, entriesOfItem?_entriesItem, Option.map_some]
  | pushRequest entries =>
    cases h
    rw [kind, ofItem?, entriesOfItem?_entriesItem, Option.map_some]
  | acknowledgement success error =>
    cases h
    exact acknowledgementOfItem?_acknowledgementItem success error

theorem numbersFit_item? {m : Message} {i : Item} (h : m.item? = some i) : i.NumbersFit := by
  cases m with
  | clockRequest => cases h
  | handshakeRequest q =>
    cases h
    exact q.numbersFit_item
  | handshakeResponse a =>
    cases h
    exact a.numbersFit_item
  | clockResponse t | pullRequest t =>
    cases h
    exact numbersFit_timestampItem _ t
  | changeSet entries | pushRequest entries =>
    cases h
    exact numbersFit_entriesItem entries
  | acknowledgement success error =>
    cases h
    exact numbersFit_acknowledgementItem success error

/-- The texts in a message. -/
def texts : Message → List String
  | handshakeRequest q => q.texts
  | handshakeResponse a => a.texts
  | clockRequest => []
  | clockResponse t | pullRequest t => [t.node]
  | changeSet entries | pushRequest entries => entries.flatMap WireEntry.texts
  | acknowledgement _ error => error.toList

/-- How many elements the list in a message has. -/
def listLength : Message → Nat
  | handshakeRequest q => q.compression.length
  | changeSet entries | pushRequest entries => entries.length
  | _ => 0

theorem fits_item? {m : Message} {i : Item} (h : m.item? = some i)
    (htexts : ∀ s ∈ m.texts, s.utf8ByteSize < Cbor.headLimit) (hlength : m.listLength < Cbor.headLimit) :
    i.Fits := by
  cases m with
  | clockRequest => cases h
  | handshakeRequest q =>
    cases h
    exact HandshakeRequest.fits_item htexts hlength
  | handshakeResponse a =>
    cases h
    exact HandshakeResponse.fits_item htexts
  | clockResponse t | pullRequest t =>
    cases h
    exact fits_timestampItem (by decide) (htexts t.node List.mem_cons_self)
  | changeSet entries | pushRequest entries =>
    cases h
    exact fits_entriesItem hlength fun w hw s hs => htexts s (List.mem_flatMap.2 ⟨w, hw, hs⟩)
  | acknowledgement success error =>
    cases h
    exact fits_acknowledgementItem fun s hs => htexts s (Option.mem_toList.2 hs)

/-! ## Reading bodies -/

/-- A message is read from a body that starts with the written form of its item. -/
theorem decode_encode_item {m : Message} {i : Item} (h : m.item? = some i) (hfits : i.Fits) (rest : Bytes) :
    decode m.kind (i.encode ++ rest) = .ok m := by
  have hparse := Item.parse?_encode hfits rest
  have hitem := ofItem?_item? h
  unfold decode
  split
  · rename_i hkind
    rw [hkind] at hitem
    cases hitem
  · rename_i hkind
    rw [hkind] at hitem
    cases hitem
  · rw [hparse, Option.bind_some]
    dsimp only
    rw [hitem]

/-- **A message is read back from its body**, whatever follows the body, if the item of the body has room for its
lengths. -/
theorem decode_encode_append {m : Message} (h : ∀ i ∈ m.item?, i.Fits) (rest : Bytes) :
    decode m.kind (m.encode ++ rest) = .ok m := by
  rw [encode_eq]
  rcases hi : m.item? with _ | i
  · rw [item?_eq_none_iff.1 hi]
    rfl
  · exact decode_encode_item hi (h i hi) rest

/-- A message is read back from its body, if the body is not longer than lengths in it can be. -/
theorem decode_encode (m : Message) (h : m.encode.length < Cbor.headLimit) : decode m.kind m.encode = .ok m := by
  have hfits : ∀ i ∈ m.item?, i.Fits := by
    intro i hi
    rw [encode_eq, hi] at h
    exact i.fits_of_numbersFit (numbersFit_item? hi) h
  have hread := decode_encode_append hfits []
  rwa [List.append_nil] at hread

theorem encode_eq_nil_iff {m : Message} : m.encode = [] ↔ m = clockRequest := by
  rw [encode_eq, ← item?_eq_none_iff]
  rcases m.item? with _ | i
  · simp
  · have hpos := i.length_encode_pos
    simpa using List.ne_nil_of_length_pos hpos

/-- **Bodies of messages are read back.** A message whose texts have fewer than 2 ^ 64 bytes each, and whose list has
fewer than 2 ^ 64 elements, is read back from its body, also if something follows the body. Only the request for the
clock has an empty body. -/
theorem body_read_back (m : Message) (htexts : ∀ s ∈ m.texts, s.utf8ByteSize < UInt64.size)
    (hlength : m.listLength < UInt64.size) :
    decode m.kind m.encode = .ok m ∧ (∀ rest, decode m.kind (m.encode ++ rest) = .ok m) ∧
      (m.encode = [] ↔ m = clockRequest) := by
  have hread : ∀ rest, decode m.kind (m.encode ++ rest) = .ok m :=
    decode_encode_append fun i hi => fits_item? hi htexts hlength
  have hbody := hread []
  rw [List.append_nil] at hbody
  exact ⟨hbody, hread, encode_eq_nil_iff⟩

/-- Texts of several bytes per character, empty texts, the ends of the ranges of numbers and an absent payload. -/
theorem body_read_back_extreme :
    let m : Message := .changeSet
      [⟨"заметки", "😀", "Put", some "{}", ⟨Int64.minValue, Int32.maxValue, "a"⟩⟩,
        ⟨"", "", "Delete", none, ⟨Int64.maxValue, Int32.minValue, ""⟩⟩]
    (∀ s ∈ m.texts, s.utf8ByteSize < UInt64.size) ∧ m.listLength < UInt64.size ∧
      decode m.kind m.encode = .ok m ∧ (∀ rest, decode m.kind (m.encode ++ rest) = .ok m) ∧
      (m.encode = [] ↔ m = clockRequest) := by
  intro m
  have htexts : ∀ s ∈ m.texts, s.utf8ByteSize < UInt64.size := by decide +kernel
  have hlength : m.listLength < UInt64.size := by decide
  exact ⟨htexts, hlength, body_read_back m htexts hlength⟩

theorem kind_ne_envelope (m : Message) : m.kind ≠ .envelope := by
  cases m <;> simp [kind]

end Message

end DocMesh
