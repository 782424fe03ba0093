/-
# How long a payload can be

What is read from a frame is never longer than the limit of its reader, whatever bytes the frame is made of. Its header
bounds the body; what is sealed in an envelope is shorter than the envelope, in whatever way its byte strings are
written; and a compressed payload is only built up to the limit.

Main statements:

* `Envelope.length_ciphertext_lt` : what is sealed is shorter than its envelope;
* `length_content_le_of_opened` : what is opened is no longer than the body;
* `length_le_of_unpack` : what is unpacked is no longer than the content, or within the limit;
* `payload_within_limit` : a payload that is read is within the limit.
-/
import DocMesh.Proofs.Cbor.Size
import DocMesh.Proofs.Channel.Authenticity

namespace DocMesh

/-! ## Envelopes -/

namespace Envelope

variable {i : Cbor.Item} {e : Envelope} {bs : Bytes}

theorem length_ciphertext_lt_of_ofItem? (h : ofItem? i = some e) : e.ciphertext.length < i.leastLength := by
  unfold ofItem? at h
  obtain ⟨fields, hfields, h⟩ := Option.bind_eq_some_iff.1 h
  split at h
  · rename_i ciphertext nonce tag
    obtain ⟨c, hc, h⟩ := Option.bind_eq_some_iff.1 h
    obtain ⟨ciphertext', hciphertext, h⟩ := Option.bind_eq_some_iff.1 h
    obtain ⟨_, -, h⟩ := Option.bind_eq_some_iff.1 h
    obtain ⟨_, -, h⟩ := Option.bind_eq_some_iff.1 h
    obtain ⟨_, -, h⟩ := Option.bind_eq_some_iff.1 h
    obtain ⟨_, -, h⟩ := Option.bind_eq_some_iff.1 h
    cases h
    cases hc
    exact Nat.lt_of_lt_of_le (Cbor.Item.length_bytes?_le hciphertext)
      (Cbor.Item.leastLength_le_of_mem_fields? hfields List.mem_cons_self)
  · cases h

/-- What is sealed is shorter than its envelope. -/
theorem length_ciphertext_lt (h : decode bs = .ok e) : e.ciphertext.length < bs.length := by
  unfold decode at h
  split at h
  · cases h
  · rename_i e' he
    split_ifs at h
    cases h
    obtain ⟨⟨i, rest⟩, hi, he⟩ := Option.bind_eq_some_iff.1 he
    exact Nat.lt_of_lt_of_le (length_ciphertext_lt_of_ofItem? he) (Cbor.Item.leastLength_parse? hi)

end Envelope

/-- What is opened is no longer than what is sealed. -/
theorem Aead.length_le_of_decrypt_aes256Gcm {key nonce ciphertext tag plaintext : Bytes}
    (h : aes256Gcm.decrypt key nonce ciphertext tag = some plaintext) : plaintext.length ≤ ciphertext.length := by
  simp only [aes256Gcm] at h
  split_ifs at h
  cases h
  rw [Gcm.crypt, Bytes.length_xor]
  exact Nat.min_le_left _ _

/-! ## Compression -/

theorem Compression.length_le_of_decompress {s : Compression} {limit : Nat} {content payload : Bytes}
    (h : s.decompress limit content = .ok payload) : payload.length ≤ limit := by
  unfold decompress at h
  split at h
  · dsimp only at h
    split_ifs at h with hlimit
    split at h
    · rename_i hdecode
      cases h
      obtain ⟨built, hbuild, rfl⟩ := Option.map_eq_some_iff.1 hdecode
      exact Nat.le_trans (Lz4.size_le_of_build? hbuild) (Nat.le_of_not_lt hlimit)
    · cases h
  · cases h

namespace FrameCodec

variable {c : FrameCodec} {kind outer : MessageKind} {code flag : UInt8} {hd : FrameHeader}
  {body content payload : Bytes}

/-- What is unpacked is no longer than the content, or within the limit. -/
theorem length_le_of_unpack (h : c.unpack flag content = .ok payload) :
    payload.length ≤ max content.length c.maxSize := by
  obtain ⟨s, -, h⟩ := exists_of_bind_eq_ok h
  rcases s with _ | s
  · cases h
    exact Nat.le_max_left _ _
  · exact Nat.le_trans (Compression.length_le_of_decompress h) (Nat.le_max_right _ _)

/-! ## Frames -/

/-- What is opened is no longer than the body. -/
theorem length_content_le_of_opened (haes : ∀ cipher, c.cipher = some cipher → cipher.aead = .aes256Gcm)
    (h : c.opened outer hd body = .ok (code, flag, content)) : content.length ≤ body.length := by
  rcases hc : c.cipher with _ | cipher
  · unfold opened at h
    rw [hc] at h
    dsimp only at h
    split_ifs at h
    cases h
    exact Nat.le_refl _
  · obtain ⟨e, he, hdecrypt⟩ := exists_decrypt_of_opened hc h
    have hopen := ChannelCipher.decrypt_eq_ok hdecrypt
    rw [haes cipher hc] at hopen
    have hplaintext := Aead.length_le_of_decrypt_aes256Gcm hopen
    have hciphertext := Envelope.length_ciphertext_lt he
    rw [List.length_cons, List.length_cons] at hplaintext
    omega

/-- **A payload that is read is within the limit.** Whatever the settings of a codec are, whatever the header says and
whatever bytes the body is made of, as many as the header has announced: the payload that is read, if any, is not
longer than the codec allows, be the frame plain or sealed, and the payload compressed or not. -/
theorem payload_within_limit (haes : ∀ cipher, c.cipher = some cipher → cipher.aead = .aes256Gcm)
    (hbody : body.length = hd.length.toNat) (h : c.decode hd body = .ok (kind, payload)) :
    payload.length ≤ c.maxSize := by
  have hcheck : body.length ≤ c.maxSize := by
    obtain ⟨⟨⟩, hcheck, -⟩ := exists_of_bind_eq_ok h
    rw [hbody]
    exact checkHeader_eq_ok_iff.1 hcheck
  obtain ⟨outer, code, flag, content, hopened, -, hunpack⟩ := opened_of_decode h
  have hcontent := length_content_le_of_opened haes hopened
  have hpayload := length_le_of_unpack hunpack
  omega

/-- A payload that is just within the limit, compressed and sealed by one end and read by the other. -/
theorem payload_within_limit_reached :
    let c : FrameCodec := ⟨some (.derive [7] .responder), some .lz4, 0, 100⟩
    let d : FrameCodec := ⟨some (.derive [7] .initiator), none, 1024, 100⟩
    let payload : Bytes := List.replicate 100 0
    ∃ sent hd, c.encode (Envelope.nonceOf 5) .changeSet payload = .ok sent ∧
      d.decode hd (sent.drop FrameHeader.size) = .ok (.changeSet, payload) ∧ payload.length = d.maxSize ∧
      payload.length ≤ d.maxSize := by
  intro c d payload
  have hpeers : c.Peers d := ⟨rfl, Or.inr ⟨[7], .responder, rfl, rfl⟩⟩
  have hnonce : (Envelope.nonceOf 5).length = Envelope.nonceLength := Bytes.length_bigEndian _ _
  have haes : ∀ cipher, d.cipher = some cipher → cipher.aead = .aes256Gcm := by
    intro cipher hcipher
    cases hcipher
    rfl
  have hinverts : ∀ s, c.compression = some s → s.Inverts payload := by
    intro s _
    refine Compression.inverts_iff.2 ?_
    rw [List.length_replicate]
    decide
  have hlimit : payload.length = d.maxSize := List.length_replicate
  have hroom : (c.pack payload).2.length + overhead ≤ c.maxSize := by decide +kernel
  obtain ⟨sent, hsent⟩ := exists_encode_of_pack hpeers hnonce .changeSet payload hroom
    (Nat.le_trans hroom (by decide))
  obtain ⟨hd, -, hlength, -, hdecode⟩ := decode_frame hpeers hnonce (by decide) hsent
  rw [unpack_pack (Nat.le_of_eq hlimit) hinverts] at hdecode
  exact ⟨sent, hd, hsent, hdecode, hlimit, payload_within_limit haes hlength.symm hdecode⟩

end FrameCodec

end DocMesh
