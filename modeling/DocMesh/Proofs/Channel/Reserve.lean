/-
# Room for what is around the entries

The entries of a page may take all of a frame but a reserve. Beside them a message has the head of its record, the name
of its only field and the head of its list, and an encrypted frame has an envelope around the message. All of this
together takes less than the reserve, whatever the number and the size of the entries are. Only a message of 2 ^ 32
bytes may still be refused, where the limit allows for one: no header can tell its length.

Main statements:

* `Message.length_encode_of_entries` : how long a message with entries is;
* `FrameCodec.encode_eq_error_frameTooLarge` : why a frame is too large that leaves room for what is around its payload;
* `FrameCodec.reserve_suffices` : entries that keep the budget are sent in a frame, and the peer reads it;
* `FrameCodec.long_entry_refused` : an entry within the budget that no header has room for.
-/
import DocMesh.Proofs.Channel.Stream
import Mathlib.Algebra.GroupWithZero.Nat

namespace DocMesh

/-! ## Messages with entries -/

namespace Message

open Cbor (Item)

variable {m : Message} {ws : List WireEntry}

theorem length_encodeItems_map_item (ws : List WireEntry) :
    (Item.encodeItems (ws.map WireEntry.item)).length = (ws.map WireEntry.size).sum := by
  induction ws with
  | nil => rfl
  | cons w ws ih => rw [List.map_cons, Item.encodeItems, List.length_append, ih, List.map_cons, List.sum_cons,
      WireEntry.size]

theorem length_encode_entriesItem (ws : List WireEntry) :
    (entriesItem ws).encode.length = 9 + (Cbor.head 4 ws.length).length + (ws.map WireEntry.size).sum := by
  have hname : "entries".utf8ByteSize = 7 := rfl
  rw [entriesItem, Item.record_eq]
  simp only [List.map_cons, List.map_nil, Item.encode, Item.encodeMembers, List.length_append, List.length_nil,
    List.length_map, List.length_singleton, Item.length_encode_ofString, length_encodeItems_map_item, hname]
  rw [show (Cbor.head 5 1).length = 1 from rfl, show (Cbor.head 3 7).length = 1 from rfl]
  omega

/-- **How long a message with entries is.** Beside its entries it has the head of a record, the name of a field and the
head of a list. -/
theorem length_encode_of_entries (h : m.entries? = some ws) :
    m.encode.length = 9 + (Cbor.head 4 ws.length).length + (ws.map WireEntry.size).sum := by
  cases m with
  | changeSet entries | pushRequest entries =>
    cases h
    exact length_encode_entriesItem _
  | _ => cases h

/-- What is beside the entries of a message takes at most 18 bytes. -/
theorem length_encode_of_entries_le (h : m.entries? = some ws) :
    m.encode.length ≤ (ws.map WireEntry.size).sum + 18 := by
  have hhead := Cbor.length_head_le 4 ws.length
  rw [length_encode_of_entries h]
  omega

/-- What stands in a push of one entry in front of the name of its collection, if that has `n` bytes. -/
def pushHead (n : Nat) : Bytes :=
  Cbor.head 5 1 ++ (Item.ofString "entries").encode ++ Cbor.head 4 1 ++ Cbor.head 5 5
    ++ (Item.ofString "collection").encode ++ Cbor.head 3 n

/-- What stands in a push of one entry behind the name of its collection. -/
def pushTail (w : WireEntry) : Bytes :=
  Item.encodeMembers [(.ofString "key", .ofString w.key), (.ofString "operation", .ofString w.operation),
    (.ofString "json_data", .ofOption .ofString w.payload), (.ofString "timestamp", w.timestamp.item)]

theorem encode_pushRequest_singleton (w : WireEntry) : (pushRequest [w]).encode
    = pushHead (Bytes.ofString w.collection).length ++ Bytes.ofString w.collection ++ pushTail w := by
  rw [encode, entriesItem, Item.record_eq]
  simp [Item.encode, Item.encodeItems, Item.encodeMembers, Item.encode_ofString, WireEntry.item, Item.record_eq,
    pushHead, pushTail]

end Message

namespace FrameCodec

variable {c d : FrameCodec} {kind : MessageKind} {code flag : UInt8} {nonce payload content : Bytes}
  {m : Message} {ws : List WireEntry} {length limit : Nat}

/-! ## Frames that are too large -/

/-- A content within the limit is refused only if no header can tell its length. -/
theorem frame_eq_error (hsize : content.length ≤ c.maxSize)
    (h : c.frame code flag content = .error (.frameTooLarge length limit)) :
    limit = headerLimit ∧ headerLimit < length ∧ length ≤ c.maxSize := by
  unfold FrameCodec.frame at h
  split_ifs at h with hlarge hheader
  · omega
  · cases h
    exact ⟨rfl, hheader, hsize⟩

/-- A payload that leaves room for what is around it does not go into a frame only if no header can tell the length. -/
theorem encode_eq_error_frameTooLarge (hpeers : c.Peers d) (hnonce : nonce.length = Envelope.nonceLength)
    (hsize : payload.length + overhead ≤ c.maxSize)
    (h : c.encode nonce kind payload = .error (.frameTooLarge length limit)) :
    limit = headerLimit ∧ headerLimit < length ∧ length ≤ c.maxSize := by
  unfold encode at h
  dsimp only at h
  have hpack := c.length_pack_le payload
  obtain ⟨hc, -⟩ | ⟨secret, role, hc, -⟩ := hpeers.keys
  · rw [hc] at h
    exact frame_eq_error (by omega) h
  · rw [hc] at h
    dsimp only at h
    rcases hsealed : (ChannelCipher.derive secret role).encrypt nonce
        (kind.code :: (c.pack payload).1 :: (c.pack payload).2) with fault | e
    · -- what cannot be sealed is an error of another kind
      rw [hsealed] at h
      cases h
      unfold ChannelCipher.encrypt at hsealed
      split at hsealed <;> cases hsealed
    · rw [hsealed] at h
      have hlength := c.length_encode_sealed_le hnonce hsealed
      exact frame_eq_error (by omega) h

/-! ## The reserve -/

/-- Around entries that keep the budget there is room for everything else. -/
theorem length_encode_add_overhead_le (hreserve : reserve < c.maxSize) (hentries : m.entries? = some ws)
    (hbudget : (ws.map WireEntry.size).sum ≤ pageBudget c.maxSize) :
    m.encode.length + overhead ≤ c.maxSize := by
  have hlength := Message.length_encode_of_entries_le hentries
  unfold pageBudget at hbudget
  unfold reserve at hbudget hreserve
  unfold overhead
  omega

/-- **The reserve suffices.** Let entries keep the budget that belongs to a limit above the reserve, and let a message
carry them. Its frame is never too large for the limit, whatever the codec does about encryption and compression, but
only for a header, which cannot tell a length of 2 ^ 32 bytes. A limit that a header can tell excludes this, and so does
a message that is shorter; then there is a frame, and a peer with the same limit reads the message from it. -/
theorem reserve_suffices (hpeers : c.Peers d) (hnonce : nonce.length = Envelope.nonceLength)
    (hreserve : reserve < c.maxSize) (hentries : m.entries? = some ws)
    (hbudget : (ws.map WireEntry.size).sum ≤ pageBudget c.maxSize) :
    (∀ length limit, c.encodeMessage nonce m = .error (.frameTooLarge length limit) →
        limit = headerLimit ∧ headerLimit < length ∧ length ≤ c.maxSize) ∧
      (c.maxSize ≤ headerLimit ∨ m.encode.length + overhead ≤ headerLimit →
        ∃ frame, c.encodeMessage nonce m = .ok frame ∧ d.Reads m frame) := by
  have hsize := length_encode_add_overhead_le hreserve hentries hbudget
  refine ⟨fun length limit h => encode_eq_error_frameTooLarge hpeers hnonce hsize h, fun hlimit => ?_⟩
  have hheader : m.encode.length + overhead ≤ headerLimit := by
    rcases hlimit with hlimit | hlimit
    · exact Nat.le_trans hsize hlimit
    · exact hlimit
  obtain ⟨frame, hsent⟩ := exists_encode hpeers hnonce m.kind m.encode hsize hheader
  have hcarries : d.Carries m frame := .sent hpeers hnonce (by omega) hsent
  have hlt : headerLimit < UInt32.size := by decide
  exact ⟨frame, hsent, hcarries.reads_iff.2 (by omega)⟩

/-- Two entries that take all of the budget are sent sealed, by a codec that compresses to one that does not. -/
theorem reserve_suffices_full :
    let c : FrameCodec := ⟨some (.derive [7] .responder), some .lz4, 0, 1237⟩
    let d : FrameCodec := ⟨some (.derive [7] .initiator), none, 1024, 1237⟩
    let ws : List WireEntry := [⟨"notes", "x", "Put", some "\"full\"", ⟨4, 0, "n"⟩⟩,
      ⟨"notes", "y", "Delete", none, ⟨5, 0, "n"⟩⟩]
    reserve < c.maxSize ∧ (ws.map WireEntry.size).sum = pageBudget c.maxSize ∧
      ∃ frame, c.encodeMessage (Envelope.nonceOf 3) (.changeSet ws) = .ok frame ∧ d.Reads (.changeSet ws) frame := by
  intro c d ws
  have hpeers : c.Peers d := ⟨rfl, Or.inr ⟨[7], .responder, rfl, rfl⟩⟩
  have hreserve : reserve < c.maxSize := by decide
  have hbudget : (ws.map WireEntry.size).sum = pageBudget c.maxSize := by decide +kernel
  obtain ⟨-, harrives⟩ := reserve_suffices hpeers (Bytes.length_bigEndian _ 3) hreserve
    (show (Message.changeSet ws).entries? = some ws from rfl) (Nat.le_of_eq hbudget)
  exact ⟨hreserve, hbudget, harrives (Or.inl (by decide))⟩

/-! ## Entries that are too long -/

/-- A payload that no header can tell the length of does not go into a plain frame. -/
theorem encode_eq_error_of_long (hcipher : c.cipher = none) (hcompression : c.compression = none)
    (hsize : payload.length ≤ c.maxSize) (hlong : headerLimit < payload.length) :
    c.encode nonce kind payload = .error (.frameTooLarge payload.length headerLimit) := by
  unfold encode pack
  rw [hcipher, hcompression]
  dsimp only
  rw [frame, if_neg (Nat.not_lt.2 hsize), if_pos hlong]

/-- **An entry within the budget that is not transferred.** The name of its collection has 2 ^ 32 letters, of which the
budget would allow nearly twice as many. Without compression the frame is refused, and with compression it is sent but
not read. -/
theorem long_entry_refused :
    let plain : FrameCodec := ⟨none, none, 1024, 2 ^ 33⟩
    let packed : FrameCodec := ⟨none, some .lz4, 1024, 2 ^ 33⟩
    let w : WireEntry := ⟨String.ofList (List.replicate UInt32.size 'a'), "id", "Delete", none, ⟨1, 0, "n"⟩⟩
    let m : Message := .pushRequest [w]
    packed.Peers plain ∧ reserve < plain.maxSize ∧ ([w].map WireEntry.size).sum ≤ pageBudget plain.maxSize ∧
      plain.encodeMessage (Envelope.nonceOf 0) m = .error (.frameTooLarge m.encode.length headerLimit) ∧
      ∃ frame, packed.encodeMessage (Envelope.nonceOf 0) m = .ok frame ∧ ¬ plain.Reads m frame := by
  intro plain packed w m
  have hbody : m.encode = Message.pushHead UInt32.size ++ List.replicate UInt32.size (UInt8.ofNat 'a'.toNat)
      ++ Message.pushTail w := by
    rw [Message.encode_pushRequest_singleton, Bytes.ofString_replicate (by decide), List.length_replicate]
  have hhead : (Message.pushHead UInt32.size).length = 31 := by decide +kernel
  have htail : (Message.pushTail w).length = 88 := by decide +kernel
  have hlength : m.encode.length = 31 + UInt32.size + 88 := by
    rw [hbody, List.length_append, List.length_append, List.length_replicate, hhead, htail]
  have hlimit : m.encode.length ≤ 2 ^ 33 := by
    rw [hlength]
    decide
  have hlong : UInt32.size ≤ m.encode.length := by
    rw [hlength]
    decide
  have hbudget : ([w].map WireEntry.size).sum ≤ pageBudget (2 ^ 33) := by
    have hentries : m.encode.length = 9 + (Cbor.head 4 [w].length).length + ([w].map WireEntry.size).sum :=
      Message.length_encode_of_entries rfl
    have hroom : 31 + UInt32.size + 88 ≤ pageBudget (2 ^ 33) := by decide
    omega
  have hpeers : packed.Peers plain := ⟨rfl, Or.inl ⟨rfl, rfl⟩⟩
  obtain ⟨frame, hsent, hcarries⟩ := exists_carries_of_run hpeers (Bytes.length_bigEndian _ 0) rfl (by decide) hbody
    hlimit (by decide +kernel) (by rw [hhead]; decide) (by rw [hhead, htail]; decide) (by decide)
  have hunread : ¬ plain.Reads m frame := by
    rw [hcarries.reads_iff]
    exact Nat.not_lt.2 hlong
  have herror : plain.encodeMessage (Envelope.nonceOf 0) m = .error (.frameTooLarge m.encode.length headerLimit) :=
    encode_eq_error_of_long rfl rfl hlimit (Nat.lt_of_lt_of_le (by decide) hlong)
  exact ⟨hpeers, by decide, hbudget, herror, frame, hsent, hunread⟩

end FrameCodec

end DocMesh
