/-
# Streams of frames

The frames of a connection follow each other without anything between them. A frame tells its own length, so the reader
of a stream gets the messages of all frames that are complete, in the order in which they were sent, and nothing of
the frame that the stream breaks off in. Only a body of 2 ^ 32 bytes or more is not read back: it is sent if it can be
compressed, and then its length has no room in front of the block.

Main statements:

* `FrameCodec.Carries.judged`, `FrameCodec.Carries.reads_iff` : what becomes of a frame that was sent;
* `FrameCodec.Reads.arrival_append`, `FrameCodec.Reads.arrival_of_prefix` : a frame at the front of a stream, and one
  that is not complete;
* `FrameCodec.stream_read` : what is read of a stream of frames, wherever it breaks off;
* `FrameCodec.long_message_refused` : a message that is accepted and not read.
-/
import DocMesh.Channel.Stream
import DocMesh.Proofs.Channel.RoundTrip
import DocMesh.Proofs.Compression.Runs
import DocMesh.Proofs.Json.Quoted
import DocMesh.Proofs.Message.Body
import Mathlib.Data.List.Forall2

namespace DocMesh

/-- A header has six bytes. -/
theorem FrameHeader.length_of_decode? {bs : Bytes} {h : FrameHeader} (hd : decode? bs = some h) : bs.length = size := by
  unfold decode? at hd
  split at hd
  · rfl
  · cases hd

namespace FrameCodec

variable {c d : FrameCodec} {m : Message} {ms : List Message} {frame p rest s : Bytes} {frames : List Bytes}

/-! ## Frames that are read -/

/-- The frame is read as the message: the header tells the length of what follows it. -/
def Reads (d : FrameCodec) (m : Message) (frame : Bytes) : Prop :=
  ∃ h, FrameHeader.decode? (frame.take FrameHeader.size) = some h ∧
    h.length.toNat = (frame.drop FrameHeader.size).length ∧ d.checkHeader h = .ok () ∧
    d.decodeMessage h (frame.drop FrameHeader.size) = .ok m

/-- The frame is what a peer of `d` sends for the message: with a body that keeps the limit, and with any settings of
compression. -/
inductive Carries (d : FrameCodec) : Message → Bytes → Prop
  | sent {c : FrameCodec} {nonce : Bytes} {m : Message} {frame : Bytes} (hpeers : c.Peers d)
      (hnonce : nonce.length = Envelope.nonceLength) (hlimit : m.encode.length ≤ c.maxSize)
      (h : c.encodeMessage nonce m = .ok frame) : Carries d m frame

/-- **What becomes of a frame that was sent.** Its message is read if the body has less than 2 ^ 32 bytes. A longer body
was only accepted because it became short, and the four bytes of its length do not tell how long it was. -/
theorem Carries.judged (h : d.Carries m frame) :
    ∃ hd, FrameHeader.decode? (frame.take FrameHeader.size) = some hd ∧
      hd.length.toNat = (frame.drop FrameHeader.size).length ∧ d.checkHeader hd = .ok () ∧
      d.decodeMessage hd (frame.drop FrameHeader.size) =
        if m.encode.length < UInt32.size then .ok m else .error (.decompression "the block is broken") := by
  obtain ⟨hpeers, hnonce, hlimit, hsent⟩ := h
  obtain ⟨hd, hread, hlength, hcheck, hdecode⟩ := decode_frame hpeers hnonce m.kind_ne_envelope hsent
  obtain ⟨hsize, hheader⟩ := length_pack_le_of_encode hpeers hnonce hsent
  rw [hpeers.limit] at hsize hlimit
  refine ⟨hd, hread, hlength, hcheck, ?_⟩
  rw [decodeMessage, hdecode, unpack_pack_eq hsize hheader]
  by_cases hroom : m.encode.length < UInt32.size
  · rw [if_pos ⟨hlimit, hroom⟩, if_pos hroom]
    exact m.decode_encode (Nat.lt_trans hroom (by decide))
  · have hmod : m.encode.length % UInt32.size < UInt32.size := Nat.mod_lt _ (by decide)
    rw [if_neg (fun hfits => hroom hfits.2), if_neg (show ¬ d.maxSize < _ by omega), if_neg hroom]
    rfl

/-- A frame that was sent is read as its message exactly if the body has less than 2 ^ 32 bytes. -/
theorem Carries.reads_iff (h : d.Carries m frame) : d.Reads m frame ↔ m.encode.length < UInt32.size := by
  obtain ⟨hd, hread, hlength, hcheck, hdecode⟩ := h.judged
  constructor
  · rintro ⟨hd', hread', -, -, hdecode'⟩
    obtain rfl : hd = hd' := Option.some.inj (hread.symm.trans hread')
    by_contra hlong
    rw [hdecode, if_neg hlong] at hdecode'
    cases hdecode'
  · intro hroom
    rw [if_pos hroom] at hdecode
    exact ⟨hd, hread, hlength, hcheck, hdecode⟩

/-! ## Arrivals -/

/-- A complete frame at the front of a stream is judged, and what is behind it is left. -/
theorem arrival_append {hd : FrameHeader} (hread : FrameHeader.decode? (frame.take FrameHeader.size) = some hd)
    (hlength : hd.length.toNat = (frame.drop FrameHeader.size).length) (hcheck : d.checkHeader hd = .ok ())
    (rest : Bytes) :
    d.arrival (frame ++ rest) =
      match d.decodeMessage hd (frame.drop FrameHeader.size) with
      | .ok m => .message m rest
      | .error e => .fault e rest := by
  have hsize : FrameHeader.size ≤ frame.length := by
    have hheader := FrameHeader.length_of_decode? hread
    rw [List.length_take] at hheader
    omega
  have hbody : ((frame ++ rest).drop FrameHeader.size).take hd.length.toNat = frame.drop FrameHeader.size := by
    rw [List.drop_append_of_le_length hsize, hlength, List.take_left]
  have hrest : ((frame ++ rest).drop FrameHeader.size).drop hd.length.toNat = rest := by
    rw [List.drop_append_of_le_length hsize, hlength, List.drop_left]
  unfold arrival
  rw [List.take_append_of_le_length hsize, hread]
  dsimp only
  rcases hresult : d.decodeMessage hd (frame.drop FrameHeader.size) with e | m
  all_goals rw [hcheck, hbody, hrest, if_pos hlength.symm, hresult]

/-- A frame whose body is too long to be restored is a fault at the front of a stream. -/
theorem Carries.arrival_of_long (h : d.Carries m frame) (hlong : UInt32.size ≤ m.encode.length) (rest : Bytes) :
    d.arrival (frame ++ rest) = .fault (.decompression "the block is broken") rest := by
  obtain ⟨hd, hread, hlength, hcheck, hdecode⟩ := h.judged
  rw [arrival_append hread hlength hcheck, hdecode, if_neg (Nat.not_lt.2 hlong)]

namespace Reads

theorem size_le_length (h : d.Reads m frame) : FrameHeader.size ≤ frame.length := by
  obtain ⟨hd, hread, -⟩ := h
  have hsize := FrameHeader.length_of_decode? hread
  rw [List.length_take] at hsize
  omega

/-- The frame at the front of a stream arrives, and what is behind it is left. -/
theorem arrival_append (h : d.Reads m frame) (rest : Bytes) : d.arrival (frame ++ rest) = .message m rest := by
  obtain ⟨hd, hread, hlength, hcheck, hdecode⟩ := h
  rw [FrameCodec.arrival_append hread hlength hcheck, hdecode]

/-- Nothing arrives of a frame that is not complete. -/
theorem arrival_of_prefix (h : d.Reads m frame) (hp : p <+: frame) (hlt : p.length < frame.length) :
    d.arrival p = .incomplete := by
  have hsize := h.size_le_length
  obtain ⟨hd, hread, hlength, hcheck, -⟩ := h
  obtain ⟨rest, rfl⟩ := hp
  unfold arrival
  by_cases hp : FrameHeader.size ≤ p.length
  · -- the header is complete, and the body is not
    have hbody : ((p.drop FrameHeader.size).take hd.length.toNat).length ≠ hd.length.toNat := by
      rw [hlength, List.length_take, List.length_drop, List.length_drop]
      omega
    rw [List.take_append_of_le_length hp] at hread
    rw [hread]
    dsimp only
    rw [hcheck, if_neg hbody]
  · have hnone : FrameHeader.decode? (p.take FrameHeader.size) = none := by
      rw [Option.eq_none_iff_forall_ne_some]
      intro hd' hread'
      have hlength' := FrameHeader.length_of_decode? hread'
      rw [List.length_take] at hlength'
      omega
    rw [hnone]

end Reads

/-! ## Streams -/

/-- A message that arrives is read, and then the stream behind it. -/
theorem messages_of_message (h : d.arrival s = .message m rest) :
    d.messages s = (m :: (d.messages rest).1, (d.messages rest).2) := by
  rw [messages]
  split <;> simp_all

theorem messages_of_incomplete (h : d.arrival s = .incomplete) : d.messages s = ([], .closed) := by
  rw [messages]
  split <;> simp_all

/-- Behind a frame that cannot be read, nothing is. -/
theorem messages_of_fault {e : ProtocolError} (h : d.arrival s = .fault e rest) : d.messages s = ([], .fault e) := by
  rw [messages]
  split <;> simp_all

/-- The messages of the frames that are complete in a part of the stream are read. -/
theorem messages_of_prefix (h : List.Forall₂ d.Reads ms frames) (hs : s <+: frames.flatten) :
    ∃ k, k ≤ ms.length ∧ d.messages s = (ms.take k, .closed) ∧
      ∀ j, j ≤ ms.length → (j ≤ k ↔ (frames.take j).flatten <+: s) := by
  induction h generalizing s with
  | nil =>
    have hnil : s = [] := List.prefix_nil.1 hs
    subst hnil
    refine ⟨0, Nat.le_refl 0, messages_of_incomplete rfl, ?_⟩
    intro j hj
    simp [Nat.le_zero.1 hj]
  | @cons m frame ms frames hframe _ ih =>
    rw [List.flatten_cons] at hs
    by_cases hle : frame.length ≤ s.length
    · -- the first frame is complete
      obtain ⟨s, rfl⟩ := List.prefix_of_prefix_length_le (List.prefix_append frame _) hs hle
      obtain ⟨k, hk, hmessages, hcomplete⟩ := ih ((List.prefix_append_right_inj frame).1 hs)
      refine ⟨k + 1, Nat.succ_le_succ hk, ?_, ?_⟩
      · rw [messages_of_message (hframe.arrival_append s), hmessages, List.take_succ_cons]
      · intro j hj
        cases j with
        | zero => simp
        | succ j =>
          rw [List.take_succ_cons, List.flatten_cons, List.prefix_append_right_inj,
            ← hcomplete j (Nat.le_of_succ_le_succ hj), Nat.succ_le_succ_iff]
    · -- the stream breaks off in the first frame
      have hlt : s.length < frame.length := Nat.lt_of_not_le hle
      have hprefix : s <+: frame :=
        List.prefix_of_prefix_length_le hs (List.prefix_append frame _) (Nat.le_of_lt hlt)
      refine ⟨0, Nat.zero_le _, messages_of_incomplete (hframe.arrival_of_prefix hprefix hlt), ?_⟩
      intro j _
      cases j with
      | zero => simp
      | succ j =>
        rw [List.take_succ_cons, List.flatten_cons]
        constructor
        · intro hj
          omega
        · intro hj
          have hlength := hj.length_le
          rw [List.length_append] at hlength
          omega

/-- Frames whose bodies have less than 2 ^ 32 bytes are all read. -/
theorem reads_of_carries (h : List.Forall₂ d.Carries ms frames) (hroom : ∀ m ∈ ms, m.encode.length < UInt32.size) :
    List.Forall₂ d.Reads ms frames := by
  induction h with
  | nil => exact .nil
  | @cons m frame ms frames hframe _ ih =>
    rw [List.forall_mem_cons] at hroom
    exact .cons (hframe.reads_iff.2 hroom.1) (ih hroom.2)

/-- The whole of a stream is read only if each body has less than 2 ^ 32 bytes. -/
theorem length_lt_of_messages (h : List.Forall₂ d.Carries ms frames)
    (hread : d.messages frames.flatten = (ms, .closed)) : ∀ m ∈ ms, m.encode.length < UInt32.size := by
  induction h with
  | nil => simp
  | @cons m frame ms frames hframe _ ih =>
    rw [List.flatten_cons] at hread
    by_cases hroom : m.encode.length < UInt32.size
    · rw [messages_of_message ((hframe.reads_iff.2 hroom).arrival_append frames.flatten)] at hread
      obtain ⟨hms, hend⟩ := Prod.mk.inj hread
      exact List.forall_mem_cons.2 ⟨hroom, ih (Prod.ext (List.cons.inj hms).2 hend)⟩
    · rw [messages_of_fault (hframe.arrival_of_long (Nat.le_of_not_lt hroom) frames.flatten)] at hread
      cases hread

/-- **Streams of frames are read message by message.** Let `frames` be what peers of `d` send for the messages `ms`,
each with its own settings of compression. From the whole stream exactly these messages are read, in order, and then
the stream is over, if and only if each body has less than 2 ^ 32 bytes. In this case those messages are read from a
part of the stream, wherever it breaks off, whose frames are complete in it, and the stream is over as well: no other
message is read, and no fault is found. -/
theorem stream_read (h : List.Forall₂ d.Carries ms frames) :
    (d.messages frames.flatten = (ms, .closed) ↔ ∀ m ∈ ms, m.encode.length < UInt32.size) ∧
      ((∀ m ∈ ms, m.encode.length < UInt32.size) →
        ∀ s, s <+: frames.flatten → ∃ k, k ≤ ms.length ∧ d.messages s = (ms.take k, .closed) ∧
          ∀ j, j ≤ ms.length → (j ≤ k ↔ (frames.take j).flatten <+: s)) := by
  refine ⟨⟨length_lt_of_messages h, fun hroom => ?_⟩, fun hroom s => messages_of_prefix (reads_of_carries h hroom)⟩
  obtain ⟨k, hk, hmessages, hcomplete⟩ :=
    messages_of_prefix (reads_of_carries h hroom) (List.prefix_refl frames.flatten)
  have hall : (frames.take ms.length).flatten <+: frames.flatten :=
    ⟨[], by rw [List.append_nil, h.length_eq, List.take_length]⟩
  have hlength := (hcomplete ms.length (Nat.le_refl _)).2 hall
  rw [hmessages, List.take_of_length_le hlength]

/-- A sealed stream with a message without a body, whole and broken off in the header of its second frame. -/
theorem stream_read_sealed :
    let c : FrameCodec := ⟨some (.derive [7] .responder), some .lz4, 0, 200⟩
    let d : FrameCodec := ⟨some (.derive [7] .initiator), none, 1024, 200⟩
    let t : Timestamp := ⟨5, 0, "a"⟩
    ∃ f g, c.encodeMessage (Envelope.nonceOf 0) .clockRequest = .ok f ∧
      c.encodeMessage (Envelope.nonceOf 1) (.pullRequest t) = .ok g ∧
      d.messages (f ++ g) = ([.clockRequest, .pullRequest t], .closed) ∧
      d.messages (f ++ g.take 5) = ([.clockRequest], .closed) := by
  intro c d t
  have hpeers : c.Peers d := ⟨rfl, Or.inr ⟨[7], .responder, rfl, rfl⟩⟩
  have hlength : ∀ n, (Envelope.nonceOf n).length = Envelope.nonceLength := fun n => Bytes.length_bigEndian _ n
  have hcarries : ∀ n m frame, m.encode.length ≤ 132 → c.encodeMessage (Envelope.nonceOf n) m = .ok frame →
      d.Carries m frame := by
    intro n m frame hm hsent
    exact .sent hpeers (hlength n) (Nat.le_trans hm (by decide)) hsent
  obtain ⟨f, hf⟩ := exists_encode hpeers (hlength 0) .clockRequest [] (by decide) (by decide)
  obtain ⟨g, hg⟩ :=
    exists_encode hpeers (hlength 1) .pullRequest (Message.pullRequest t).encode (by decide) (by decide)
  have hsecond : d.Carries (.pullRequest t) g := hcarries 1 _ g (by decide) hg
  have hstream : List.Forall₂ d.Carries [.clockRequest, .pullRequest t] [f, g] :=
    .cons (hcarries 0 _ f (by decide) hf) (.cons hsecond .nil)
  have hroom : ∀ m ∈ [Message.clockRequest, .pullRequest t], m.encode.length < UInt32.size := by decide
  obtain ⟨hwhole, hpart⟩ := stream_read hstream
  have hflatten : [f, g].flatten = f ++ g := by simp
  rw [hflatten] at hwhole hpart
  obtain ⟨k, -, hmessages, hcomplete⟩ := hpart hroom (f ++ g.take 5)
    ((List.prefix_append_right_inj f).2 (List.take_prefix 5 g))
  have hone : 1 ≤ k := (hcomplete 1 (by decide)).2 (by simp)
  have htwo : ¬ 2 ≤ k := by
    intro h
    have hprefix := ((hcomplete 2 (by decide)).1 h).length_le
    have hsize := (hsecond.reads_iff.2 (by decide)).size_le_length
    simp [FrameHeader.size] at hprefix hsize
    omega
  have hk : k = 1 := by omega
  rw [hk] at hmessages
  exact ⟨f, g, hf, hg, hwhole.2 hroom, hmessages⟩

end FrameCodec

/-! ## Bodies that are too long -/

namespace Message

open Cbor (Item)

/-- What stands in the body of an acknowledgement in front of a text of `n` bytes. -/
def acknowledgementHead (n : Nat) : Bytes :=
  Cbor.head 5 2 ++ (Item.ofString "success").encode ++ (Item.ofBool false).encode ++ (Item.ofString "error").encode
    ++ Cbor.head 3 n

theorem encode_acknowledgement_some (s : String) :
    (acknowledgement false (some s)).encode = acknowledgementHead (Bytes.ofString s).length ++ Bytes.ofString s := by
  rw [encode, acknowledgementItem, Item.record_eq]
  simp [Item.encode, Item.encodeMembers, Item.ofOption, Item.encode_ofString, acknowledgementHead]

end Message

namespace FrameCodec

variable {c d : FrameCodec} {m : Message} {head tail nonce : Bytes} {b : UInt8} {n : Nat}

/-- A body that is a long run for the most part is sent, even if it is several times longer than a frame can be. -/
theorem exists_carries_of_run (hpeers : c.Peers d) (hnonce : nonce.length = Envelope.nonceLength)
    (hlz4 : c.compression = some .lz4) (hthreshold : c.threshold < n)
    (hbody : m.encode = head ++ List.replicate n b ++ tail) (hlimit : m.encode.length ≤ c.maxSize)
    (hfresh : Lz4.Text.Fresh ⟨(head ++ List.replicate Lz4.minMatch b).toArray⟩ head.length)
    (hnear : head.length ≤ Lz4.maxDistance) (hn : 61 * head.length + 16 * tail.length + 236 ≤ n)
    (hshort : n ≤ 7 * headerLimit) :
    ∃ frame, c.encodeMessage nonce m = .ok frame ∧ d.Carries m frame := by
  have hlength : m.encode.length = head.length + n + tail.length := by
    rw [hbody, List.length_append, List.length_append, List.length_replicate]
  have hpack : (c.pack m.encode).2.length ≤ (Compression.lz4.compress m.encode).length :=
    c.length_pack_le_length_compress hlz4 (by omega)
  have hcompress : 15 * (Compression.lz4.compress m.encode).length ≤ 2 * n := by
    rw [hbody]
    exact Compression.length_compress_run_le hfresh hnear tail hn
  have hoverhead : overhead ≤ 200 ∧ 15 * overhead ≤ headerLimit := by decide
  obtain ⟨frame, hsent⟩ := exists_encode_of_pack hpeers hnonce m.kind m.encode (by omega) (by omega)
  exact ⟨frame, hsent, .sent hpeers hnonce hlimit hsent⟩

/-- **A message that is accepted and not read.** An acknowledgement with a text of 2 ^ 32 letters is compressed to a
frame that keeps the limit, but the four bytes in front of the block tell its length only modulo 2 ^ 32. -/
theorem long_message_refused :
    let c : FrameCodec := ⟨none, some .lz4, 1024, 2 ^ 33⟩
    let m : Message := .acknowledgement false (some (String.ofList (List.replicate UInt32.size 'a')))
    m.encode.length ≤ c.maxSize ∧
      ∃ frame, c.encodeMessage (Envelope.nonceOf 0) m = .ok frame ∧ c.Carries m frame ∧
        c.messages frame = ([], .fault (.decompression "the block is broken")) := by
  intro c m
  have hbody : m.encode
      = Message.acknowledgementHead UInt32.size ++ List.replicate UInt32.size (UInt8.ofNat 'a'.toNat) ++ [] := by
    rw [Message.encode_acknowledgement_some, Bytes.ofString_replicate (by decide), List.length_replicate,
      List.append_nil]
  have hhead : (Message.acknowledgementHead UInt32.size).length = 25 := by decide +kernel
  have hlength : m.encode.length = 25 + UInt32.size := by
    rw [hbody, List.append_nil, List.length_append, List.length_replicate, hhead]
  have hlimit : m.encode.length ≤ c.maxSize := by
    rw [hlength]
    decide
  obtain ⟨frame, hsent, hcarries⟩ := exists_carries_of_run ⟨rfl, Or.inl ⟨rfl, rfl⟩⟩ (Bytes.length_bigEndian _ 0) rfl
    (by decide) hbody hlimit (by decide +kernel) (by rw [hhead]; decide) (by rw [hhead]; decide) (by decide)
  have hlong : UInt32.size ≤ m.encode.length := by
    rw [hlength]
    exact Nat.le_add_left _ _
  refine ⟨hlimit, frame, hsent, hcarries, ?_⟩
  rw [← List.append_nil frame]
  exact messages_of_fault (hcarries.arrival_of_long hlong [])

end FrameCodec

end DocMesh
