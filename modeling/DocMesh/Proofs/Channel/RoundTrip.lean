/-
# Frames that arrive

A payload passes through four layers on its way into a frame: it may be compressed, it is put behind its kind and its
flag, on an encrypted channel it is sealed into an envelope, and a header is put in front. The codec of the peer
takes them off again, whatever its own compression is, since each frame says by itself how it was made.

Main statements:

* `unpack_pack_eq` : what becomes of a packed payload;
* `decode_frame` : what the peer makes of a frame that was accepted;
* `payload_arrives` : a payload within the limit arrives as it was sent;
* `payload_arrives_or_refused` : what becomes of a payload of any length.
-/
import DocMesh.Channel.Frame
import DocMesh.Proofs.Channel.Sealing
import DocMesh.Proofs.Compression.Scheme

namespace DocMesh.FrameCodec

variable {c d : FrameCodec} {kind : MessageKind} {code flag : UInt8} {hd : FrameHeader}
  {nonce payload content body sent : Bytes}

/-! ## Packing -/

/-- How a payload is packed: as it is, or compressed if that makes it shorter. -/
theorem pack_cases (c : FrameCodec) (payload : Bytes) :
    c.pack payload = (Compression.flagOf none, payload) ∨
      ∃ s, c.compression = some s ∧ (s.compress payload).length < payload.length ∧
        c.pack payload = (Compression.flagOf (some s), s.compress payload) := by
  unfold pack
  rcases hc : c.compression with _ | s
  · exact Or.inl rfl
  · rcases hs : s.compressIfSmaller c.threshold payload with _ | compressed
    · exact Or.inl (by simp [hs])
    · obtain ⟨-, rfl, hsmaller⟩ := Compression.compressIfSmaller_eq_some_iff.1 hs
      exact Or.inr ⟨s, rfl, hsmaller, by simp [hs]⟩

theorem length_pack_le (c : FrameCodec) (payload : Bytes) : (c.pack payload).2.length ≤ payload.length := by
  rcases c.pack_cases payload with h | ⟨s, -, hsmaller, h⟩
  · exact Nat.le_of_eq (by rw [h])
  · rw [h]
    exact Nat.le_of_lt hsmaller

/-- A payload above the threshold is packed at least as well as it is compressed. -/
theorem length_pack_le_length_compress {s : Compression} (hs : c.compression = some s)
    (hthreshold : c.threshold < payload.length) : (c.pack payload).2.length ≤ (s.compress payload).length := by
  unfold pack
  rw [hs]
  dsimp only
  rcases hsmaller : s.compressIfSmaller c.threshold payload with _ | compressed
  · have hle : ¬ (s.compress payload).length < payload.length := by
      intro hlt
      rw [Compression.compressIfSmaller_eq_some_iff.2 ⟨hthreshold, rfl, hlt⟩] at hsmaller
      cases hsmaller
    exact Nat.le_of_not_lt hle
  · obtain ⟨-, rfl, -⟩ := Compression.compressIfSmaller_eq_some_iff.1 hsmaller
    exact Nat.le_refl _

theorem unpack_flagOf_none (c : FrameCodec) (content : Bytes) :
    c.unpack (Compression.flagOf none) content = .ok content := rfl

theorem unpack_flagOf_some (c : FrameCodec) (s : Compression) (content : Bytes) :
    c.unpack (Compression.flagOf (some s)) content = s.decompress c.maxSize content := by
  rw [unpack, Compression.ofFlag_flagOf]
  rfl

/-- A packed payload within the limit is unpacked. -/
theorem unpack_pack (hlimit : payload.length ≤ d.maxSize)
    (hinverts : ∀ s, c.compression = some s → s.Inverts payload) :
    d.unpack (c.pack payload).1 (c.pack payload).2 = .ok payload := by
  rcases c.pack_cases payload with h | ⟨s, hs, -, h⟩
  · rw [h, unpack_flagOf_none]
  · rw [h, unpack_flagOf_some, Compression.decompress_of_inverts (hinverts s hs) hlimit]

/-- **What becomes of a packed payload** whose content goes into a frame. -/
theorem unpack_pack_eq (hsize : (c.pack payload).2.length ≤ d.maxSize)
    (hheader : (c.pack payload).2.length ≤ headerLimit) :
    d.unpack (c.pack payload).1 (c.pack payload).2 =
      if payload.length ≤ d.maxSize ∧ payload.length < UInt32.size then .ok payload
      else if d.maxSize < payload.length % UInt32.size then
        .error (.frameTooLarge (payload.length % UInt32.size) d.maxSize)
      else .error (.decompression "the block is broken") := by
  rcases c.pack_cases payload with hpack | ⟨s, -, -, hpack⟩
  · rw [hpack] at hsize hheader ⊢
    have hroom : payload.length < UInt32.size := Nat.lt_of_le_of_lt hheader (by decide)
    rw [unpack_flagOf_none, if_pos ⟨hsize, hroom⟩]
  · rw [hpack, unpack_flagOf_some, Compression.decompress_compress]
    by_cases hroom : payload.length < UInt32.size
    · rw [Nat.mod_eq_of_lt hroom]
      split_ifs with hlong hfits
      · omega
      · rfl
      · rfl
      · omega
    · rw [if_neg hroom, if_neg (show ¬ (payload.length ≤ d.maxSize ∧ _) from fun hfits => hroom hfits.2)]

/-- Nothing but the payload is unpacked. -/
theorem eq_of_unpack_pack {restored : Bytes} (h : d.unpack (c.pack payload).1 (c.pack payload).2 = .ok restored) :
    restored = payload := by
  rcases c.pack_cases payload with hpack | ⟨s, -, -, hpack⟩
  · rw [hpack, unpack_flagOf_none] at h
    exact (Except.ok.inj h).symm
  · rw [hpack, unpack_flagOf_some] at h
    exact Compression.eq_of_decompress_compress h

/-! ## Headers -/

theorem frame_eq_ok_iff : c.frame code flag content = .ok sent ↔
    content.length ≤ c.maxSize ∧ content.length ≤ headerLimit ∧
      FrameHeader.encode ⟨UInt32.ofNat content.length, code, flag⟩ ++ content = sent := by
  unfold FrameCodec.frame
  split_ifs with hsize hheader
  · simp
    omega
  · simp
    omega
  · rw [Except.ok.injEq]
    exact ⟨fun h => ⟨by omega, by omega, h⟩, fun h => h.2.2⟩

theorem checkHeader_eq_ok_iff : c.checkHeader hd = .ok () ↔ hd.length.toNat ≤ c.maxSize := by
  unfold checkHeader
  split_ifs with h
  · simpa using h
  · simpa using h

/-- A frame is its header and its content, and a codec with the same limit lets the header pass. -/
theorem header_of_frame (h : c.frame code flag content = .ok sent) (hlimit : c.maxSize = d.maxSize) :
    ∃ hd, FrameHeader.decode? (sent.take FrameHeader.size) = some hd ∧ hd.kind = code ∧ hd.flag = flag ∧
      sent.drop FrameHeader.size = content ∧ hd.length.toNat = content.length ∧ d.checkHeader hd = .ok () := by
  obtain ⟨hsize, hheader, rfl⟩ := frame_eq_ok_iff.1 h
  have hlength : (UInt32.ofNat content.length).toNat = content.length := by
    rw [UInt32.toNat_ofNat']
    unfold headerLimit UInt32.size at hheader
    omega
  have hencode : (FrameHeader.encode ⟨UInt32.ofNat content.length, code, flag⟩).length = FrameHeader.size := by
    simp [FrameHeader.encode, FrameHeader.size]
  refine ⟨⟨UInt32.ofNat content.length, code, flag⟩, ?_, rfl, rfl, ?_, hlength, ?_⟩
  · rw [← hencode, List.take_left, FrameHeader.decode?_encode]
  · rw [← hencode, List.drop_left]
  · rw [checkHeader_eq_ok_iff, hlength, ← hlimit]
    exact hsize

/-! ## The peer -/

/-- The codecs of the two ends of a channel: they have the same limit, and both are for plain frames or both have the
keys that one secret gives to their roles. Nothing is said of their compression. -/
structure Peers (c d : FrameCodec) : Prop where
  limit : c.maxSize = d.maxSize
  keys : (c.cipher = none ∧ d.cipher = none) ∨
    ∃ secret role, c.cipher = some (.derive secret role) ∧ d.cipher = some (.derive secret role.other)

/-- After a frame has been opened, the kind that it was sent with is read, and the content is unpacked. -/
theorem decode_of_opened {outer : MessageKind} (hcheck : c.checkHeader hd = .ok ())
    (houter : MessageKind.ofCode hd.kind = .ok outer)
    (hopened : c.opened outer hd body = .ok (kind.code, flag, content)) (hkind : kind ≠ .envelope) :
    c.decode hd body = (c.unpack flag content).map fun restored => (kind, restored) := by
  unfold decode
  rw [hcheck, houter]
  show (c.opened outer hd body >>= _) = _
  rw [hopened]
  show (MessageKind.ofCode kind.code >>= _) = _
  rw [MessageKind.ofCode_code]
  show (if kind = .envelope then _ else _) = _
  rw [if_neg hkind]
  rcases c.unpack flag content with e | restored <;> rfl

/-- What goes well as a whole goes well step by step. -/
theorem exists_of_bind_eq_ok {ε α β : Type} {x : Except ε α} {f : α → Except ε β} {b : β}
    (h : x >>= f = .ok b) : ∃ a, x = .ok a ∧ f a = .ok b := by
  rcases x with e | a
  · cases h
  · exact ⟨a, rfl, h⟩

/-- A payload is read only from what has been opened, by the kind and the flag in front of it. -/
theorem opened_of_decode (h : c.decode hd body = .ok (kind, payload)) :
    ∃ outer code flag content, c.opened outer hd body = .ok (code, flag, content) ∧
      MessageKind.ofCode code = .ok kind ∧ c.unpack flag content = .ok payload := by
  obtain ⟨_, -, h⟩ := exists_of_bind_eq_ok h
  obtain ⟨outer, -, h⟩ := exists_of_bind_eq_ok h
  obtain ⟨⟨code, flag, content⟩, hopened, h⟩ := exists_of_bind_eq_ok h
  obtain ⟨inner, hinner, h⟩ := exists_of_bind_eq_ok h
  split_ifs at h
  obtain ⟨restored, hrestored, h⟩ := exists_of_bind_eq_ok h
  cases h
  exact ⟨outer, code, flag, content, hopened, hinner, hrestored⟩

/-- How an accepted frame has been made: from the packed payload, or from the envelope into which it is sealed. -/
theorem encode_cases (hpeers : c.Peers d) (h : c.encode nonce kind payload = .ok sent) :
    (d.cipher = none ∧ c.frame kind.code (c.pack payload).1 (c.pack payload).2 = .ok sent) ∨
      ∃ secret role e, d.cipher = some (.derive secret role.other) ∧
        (ChannelCipher.derive secret role).encrypt nonce
          (kind.code :: (c.pack payload).1 :: (c.pack payload).2) = .ok e ∧
        c.frame MessageKind.envelope.code (Compression.flagOf none) e.encode = .ok sent := by
  unfold encode at h
  dsimp only at h
  obtain ⟨hc, hd⟩ | ⟨secret, role, hc, hd⟩ := hpeers.keys
  · rw [hc] at h
    exact Or.inl ⟨hd, h⟩
  · rw [hc] at h
    dsimp only at h
    rcases hsealed : (ChannelCipher.derive secret role).encrypt nonce
        (kind.code :: (c.pack payload).1 :: (c.pack payload).2) with fault | e
    · rw [hsealed] at h
      cases h
    · rw [hsealed] at h
      exact Or.inr ⟨secret, role, e, hd, hsealed, h⟩

/-- **What the peer makes of a frame that was accepted.** It takes off everything but the packing. -/
theorem decode_frame (hpeers : c.Peers d) (hnonce : nonce.length = Envelope.nonceLength)
    (hkind : kind ≠ .envelope) (h : c.encode nonce kind payload = .ok sent) :
    ∃ hd, FrameHeader.decode? (sent.take FrameHeader.size) = some hd ∧
      hd.length.toNat = (sent.drop FrameHeader.size).length ∧ d.checkHeader hd = .ok () ∧
      d.decode hd (sent.drop FrameHeader.size)
        = (d.unpack (c.pack payload).1 (c.pack payload).2).map fun restored => (kind, restored) := by
  obtain ⟨hd, hframe⟩ | ⟨secret, role, e, hd, hsealed, hframe⟩ := encode_cases hpeers h
  · obtain ⟨header, hread, hcode, hflag, hbody, hlength, hcheck⟩ := header_of_frame hframe hpeers.limit
    refine ⟨header, hread, by rw [hbody, hlength], hcheck, ?_⟩
    have houter : MessageKind.ofCode header.kind = .ok kind := by rw [hcode, MessageKind.ofCode_code]
    apply decode_of_opened hcheck houter _ hkind
    rw [opened, hd]
    dsimp only
    rw [if_neg hkind, hcode, hflag, hbody]
  · obtain ⟨header, hread, hcode, -, hbody, hlength, hcheck⟩ := header_of_frame hframe hpeers.limit
    refine ⟨header, hread, by rw [hbody, hlength], hcheck, ?_⟩
    have houter : MessageKind.ofCode header.kind = .ok .envelope := by rw [hcode, MessageKind.ofCode_code]
    apply decode_of_opened hcheck houter _ hkind
    rw [opened, hd]
    dsimp only
    rw [if_pos rfl, hbody, ChannelCipher.decode_encode_derive hnonce hsealed]
    show ((ChannelCipher.derive secret role.other).decrypt e >>= _) = _
    rw [ChannelCipher.decrypt_derive hnonce hsealed]
    rfl

/-! ## Sizes -/

/-- How many bytes a frame may have beside its header and the payload. -/
def overhead : Nat := 68

/-- The content of a frame that is accepted keeps the limit. -/
theorem length_pack_le_of_encode (hpeers : c.Peers d) (hnonce : nonce.length = Envelope.nonceLength)
    (h : c.encode nonce kind payload = .ok sent) :
    (c.pack payload).2.length ≤ c.maxSize ∧ (c.pack payload).2.length ≤ headerLimit := by
  obtain ⟨-, hframe⟩ | ⟨secret, role, e, -, hsealed, hframe⟩ := encode_cases hpeers h
  · obtain ⟨hsize, hheader, -⟩ := frame_eq_ok_iff.1 hframe
    exact ⟨hsize, hheader⟩
  · obtain ⟨hsize, hheader, -⟩ := frame_eq_ok_iff.1 hframe
    obtain ⟨hlength, -, rfl, htag⟩ := ChannelCipher.lengths_encrypt_derive hsealed
    rw [Envelope.length_encode hnonce htag, hlength, List.length_cons, List.length_cons] at hsize hheader
    omega

/-- What is around a packed payload that is sealed keeps within the overhead. -/
theorem length_encode_sealed_le {secret : Bytes} {role : ChannelRole} {e : Envelope} (c : FrameCodec)
    (hnonce : nonce.length = Envelope.nonceLength)
    (hsealed : (ChannelCipher.derive secret role).encrypt nonce
      (code :: (c.pack payload).1 :: (c.pack payload).2) = .ok e) :
    e.encode.length ≤ (c.pack payload).2.length + overhead := by
  obtain ⟨hlength, -, rfl, htag⟩ := ChannelCipher.lengths_encrypt_derive hsealed
  have hhead := Cbor.length_head_le 2 e.ciphertext.length
  rw [List.length_cons, List.length_cons] at hlength
  rw [Envelope.length_encode hnonce htag, overhead]
  omega

/-- A packed payload that leaves room for what is around it is accepted. -/
theorem exists_encode_of_pack (hpeers : c.Peers d) (hnonce : nonce.length = Envelope.nonceLength) (kind : MessageKind)
    (payload : Bytes) (hsize : (c.pack payload).2.length + overhead ≤ c.maxSize)
    (hheader : (c.pack payload).2.length + overhead ≤ headerLimit) :
    ∃ sent, c.encode nonce kind payload = .ok sent := by
  have hoverhead : 2 ≤ overhead := by decide
  unfold encode
  dsimp only
  obtain ⟨hc, -⟩ | ⟨secret, role, hc, -⟩ := hpeers.keys
  · rw [hc]
    exact ⟨_, frame_eq_ok_iff.2 ⟨by omega, by omega, rfl⟩⟩
  · have hlimit : headerLimit ≤ Gcm.maxLength := by decide
    have hplaintext : (kind.code :: (c.pack payload).1 :: (c.pack payload).2).length ≤ Gcm.maxLength := by
      rw [List.length_cons, List.length_cons]
      omega
    obtain ⟨e, hsealed⟩ := ChannelCipher.exists_encrypt_derive secret role nonce hplaintext
    have hlength := c.length_encode_sealed_le hnonce hsealed
    rw [hc]
    dsimp only
    rw [hsealed]
    exact ⟨_, frame_eq_ok_iff.2 ⟨Nat.le_trans hlength hsize, Nat.le_trans hlength hheader, rfl⟩⟩

/-- A payload that leaves room for what is around it is accepted. -/
theorem exists_encode (hpeers : c.Peers d) (hnonce : nonce.length = Envelope.nonceLength) (kind : MessageKind)
    (payload : Bytes) (hsize : payload.length + overhead ≤ c.maxSize)
    (hheader : payload.length + overhead ≤ headerLimit) :
    ∃ sent, c.encode nonce kind payload = .ok sent := by
  have hpack := c.length_pack_le payload
  exact exists_encode_of_pack hpeers hnonce kind payload (by omega) (by omega)

/-! ## Arrival -/

/-- **A payload within the limit arrives as it was sent**, whatever the two ends do about compression, and the header
tells how long the rest of the frame is. -/
theorem payload_arrives (hpeers : c.Peers d) (hnonce : nonce.length = Envelope.nonceLength)
    (hkind : kind ≠ .envelope) (hlimit : payload.length ≤ c.maxSize)
    (hinverts : ∀ s, c.compression = some s → s.Inverts payload) (h : c.encode nonce kind payload = .ok sent) :
    ∃ hd, FrameHeader.decode? (sent.take FrameHeader.size) = some hd ∧
      hd.length.toNat = (sent.drop FrameHeader.size).length ∧
      d.decode hd (sent.drop FrameHeader.size) = .ok (kind, payload) := by
  obtain ⟨hd, hread, hlength, -, hdecode⟩ := decode_frame hpeers hnonce hkind h
  rw [hpeers.limit] at hlimit
  refine ⟨hd, hread, hlength, ?_⟩
  rw [hdecode, unpack_pack hlimit hinverts]
  rfl

/-- A payload is compressed and sealed by one end and read by the other, which does not compress. -/
theorem payload_arrives_sealed :
    let c : FrameCodec := ⟨some (.derive [7] .responder), some .lz4, 0, 200⟩
    let d : FrameCodec := ⟨some (.derive [7] .initiator), none, 1024, 200⟩
    let nonce := Envelope.nonceOf 5
    let payload : Bytes := List.replicate 80 0
    (c.pack payload).2.length < payload.length ∧
      ∃ sent hd, c.encode nonce .changeSet payload = .ok sent ∧
        FrameHeader.decode? (sent.take FrameHeader.size) = some hd ∧
        hd.length.toNat = (sent.drop FrameHeader.size).length ∧
        d.decode hd (sent.drop FrameHeader.size) = .ok (.changeSet, payload) := by
  intro c d nonce payload
  have hpeers : c.Peers d := ⟨rfl, Or.inr ⟨[7], .responder, rfl, rfl⟩⟩
  have hnonce : nonce.length = Envelope.nonceLength := Bytes.length_bigEndian _ _
  have hinverts : ∀ s, c.compression = some s → s.Inverts payload := by
    intro s _
    exact Compression.inverts_iff.2 (by decide)
  obtain ⟨sent, hsent⟩ := exists_encode hpeers hnonce .changeSet payload (by decide) (by decide)
  obtain ⟨hd, hread⟩ := payload_arrives hpeers hnonce (by decide) (by decide) hinverts hsent
  exact ⟨by decide +kernel, sent, hd, hsent, hread⟩

/-- **What becomes of a payload of any length.** The header of an accepted frame is never refused, but the payload is
exactly if it is longer than the limit, which the sender did not notice as it was compressed, or than the four bytes
of its length can tell. -/
theorem payload_arrives_or_refused (hpeers : c.Peers d) (hnonce : nonce.length = Envelope.nonceLength)
    (hkind : kind ≠ .envelope) (h : c.encode nonce kind payload = .ok sent) :
    ∃ hd, FrameHeader.decode? (sent.take FrameHeader.size) = some hd ∧
      hd.length.toNat = (sent.drop FrameHeader.size).length ∧ d.checkHeader hd = .ok () ∧
      d.decode hd (sent.drop FrameHeader.size) =
        if payload.length ≤ d.maxSize ∧ payload.length < UInt32.size then .ok (kind, payload)
        else if d.maxSize < payload.length % UInt32.size then
          .error (.frameTooLarge (payload.length % UInt32.size) d.maxSize)
        else .error (.decompression "the block is broken") := by
  obtain ⟨hd, hread, hlength, hcheck, hdecode⟩ := decode_frame hpeers hnonce hkind h
  obtain ⟨hsize, hheader⟩ := length_pack_le_of_encode hpeers hnonce h
  rw [hpeers.limit] at hsize
  refine ⟨hd, hread, hlength, hcheck, ?_⟩
  rw [hdecode, unpack_pack_eq hsize hheader]
  split_ifs <;> rfl

/-- A payload that is one byte longer than the limit is refused after it has been accepted. -/
theorem payload_arrives_or_refused_long :
    let c : FrameCodec := ⟨none, some .lz4, 16, 64⟩
    let d : FrameCodec := ⟨none, none, 1024, 64⟩
    let payload : Bytes := List.replicate 65 7
    ∃ sent hd, c.encode (Envelope.nonceOf 0) .pushRequest payload = .ok sent ∧
      FrameHeader.decode? (sent.take FrameHeader.size) = some hd ∧ d.checkHeader hd = .ok () ∧
      d.decode hd (sent.drop FrameHeader.size) = .error (.frameTooLarge 65 64) := by
  intro c d payload
  have hpeers : c.Peers d := ⟨rfl, Or.inl ⟨rfl, rfl⟩⟩
  have hsent : c.encode (Envelope.nonceOf 0) .pushRequest payload
      = .ok [16, 0, 0, 0, 7, 1, 65, 0, 0, 0, 31, 7, 1, 0, 39, 96, 7, 7, 7, 7, 7, 7] := by decide +kernel
  obtain ⟨hd, hread, -, hcheck, hdecode⟩ :=
    payload_arrives_or_refused hpeers (Bytes.length_bigEndian _ _) (by decide) hsent
  exact ⟨_, hd, hsent, hread, hcheck, hdecode⟩

/-- A payload of 200 equal bytes goes into 16 and is refused by a peer that takes 100. -/
theorem accepted_payload_refused :
    let c : FrameCodec := ⟨none, some .lz4, 0, 100⟩
    let sent : Bytes := [16, 0, 0, 0, 6, 1, 200, 0, 0, 0, 31, 0, 1, 0, 174, 96, 0, 0, 0, 0, 0, 0]
    let hd : FrameHeader := ⟨16, 6, 1⟩
    c.Peers c ∧ c.encode (Envelope.nonceOf 0) .changeSet (List.replicate 200 0) = .ok sent ∧
      FrameHeader.decode? (sent.take FrameHeader.size) = some hd ∧
      hd.length.toNat = (sent.drop FrameHeader.size).length ∧ c.checkHeader hd = .ok () ∧
      c.decode hd (sent.drop FrameHeader.size) = .error (.frameTooLarge 200 100) :=
  ⟨⟨rfl, Or.inl ⟨rfl, rfl⟩⟩, by decide +kernel⟩

end DocMesh.FrameCodec
