/-
# Who sent what is read

On an encrypted channel a payload is only read from an envelope that opens under the key for what the other end
sends. If nobody forges envelopes, the other end has sealed it, for the two ends seal under different keys; and what
it sealed tells the kind and the payload that it was asked to send. So neither plain frames nor frames that are sent
back, taken apart or put into each other are ever read as messages.

Main statements:

* `exists_decrypt_of_decode` : a payload is only read from an envelope that opens;
* `Call.eq_of_plaintext` : what is sealed tells what was to be sent;
* `exists_call_of_decode` : what is read was sent by the other end.
-/
import DocMesh.Proofs.Channel.RoundTrip

namespace DocMesh

/-! ## Opening -/

namespace FrameCodec

variable {c : FrameCodec} {cipher : ChannelCipher} {kind outer : MessageKind} {code flag : UInt8}
  {body content payload : Bytes} {hd : FrameHeader}

/-- On an encrypted channel nothing is opened but envelopes. -/
theorem exists_decrypt_of_opened (hc : c.cipher = some cipher)
    (h : c.opened outer hd body = .ok (code, flag, content)) :
    ∃ e, Envelope.decode body = .ok e ∧ cipher.decrypt e = .ok (code :: flag :: content) := by
  unfold opened at h
  rw [hc] at h
  dsimp only at h
  split_ifs at h
  obtain ⟨e, he, h⟩ := exists_of_bind_eq_ok h
  obtain ⟨plaintext, hplaintext, h⟩ := exists_of_bind_eq_ok h
  refine ⟨e, he, ?_⟩
  rw [hplaintext]
  rcases plaintext with _ | ⟨a, _ | ⟨b, rest⟩⟩
  · cases h
  · cases h
  · cases h
    rfl

/-- On an encrypted channel a payload is only read from an envelope that opens. -/
theorem exists_decrypt_of_decode (hc : c.cipher = some cipher) (h : c.decode hd body = .ok (kind, payload)) :
    ∃ e code flag content, Envelope.decode body = .ok e ∧ cipher.decrypt e = .ok (code :: flag :: content) ∧
      MessageKind.ofCode code = .ok kind ∧ c.unpack flag content = .ok payload := by
  obtain ⟨outer, code, flag, content, hopened, hcode, hunpack⟩ := opened_of_decode h
  obtain ⟨e, he, hdecrypt⟩ := exists_decrypt_of_opened hc hopened
  exact ⟨e, code, flag, content, he, hdecrypt, hcode, hunpack⟩

end FrameCodec

theorem ChannelCipher.decrypt_eq_ok {c : ChannelCipher} {e : Envelope} {plaintext : Bytes}
    (h : c.decrypt e = .ok plaintext) : c.aead.decrypt c.openKey e.nonce e.ciphertext e.tag = some plaintext := by
  unfold decrypt at h
  split_ifs at h
  rcases hopen : c.aead.decrypt c.openKey e.nonce e.ciphertext e.tag with _ | bs
  · rw [hopen] at h
    cases h
  · rw [hopen] at h
    cases h
    rfl

/-! ## Calls -/

/-- The keys of one end of a channel with the given secret, where any cipher may be used. -/
def ChannelCipher.deriveFor (aead : Aead) (secret : Bytes) (role : ChannelRole) : ChannelCipher :=
  { derive secret role with aead := aead }

/-- One end of a channel is asked to send a payload. What it does about compression may change from call to call. -/
structure Call where
  sender : ChannelRole
  compression : Option Compression
  threshold : Nat
  maxSize : Nat
  nonce : Bytes
  kind : MessageKind
  payload : Bytes

namespace Call

variable {aead : Aead} {secret : Bytes} {call : Call} {calls : List Call}

/-- The codec of the sender. -/
def codec (aead : Aead) (secret : Bytes) (call : Call) : FrameCodec :=
  ⟨some (.deriveFor aead secret call.sender), call.compression, call.threshold, call.maxSize⟩

/-- What is sealed. -/
def plaintext (aead : Aead) (secret : Bytes) (call : Call) : Bytes :=
  let (flag, content) := (call.codec aead secret).pack call.payload
  call.kind.code :: flag :: content

/-- The envelope that it is sealed into. -/
def envelope (aead : Aead) (secret : Bytes) (call : Call) : Except ProtocolError Envelope :=
  (ChannelCipher.deriveFor aead secret call.sender).encrypt call.nonce (call.plaintext aead secret)

/-- The frame of a call holds its envelope. -/
theorem encode_eq (aead : Aead) (secret : Bytes) (call : Call) :
    (call.codec aead secret).encode call.nonce call.kind call.payload =
      match call.envelope aead secret with
      | .error e => .error e
      | .ok e => (call.codec aead secret).frame MessageKind.envelope.code (Compression.flagOf none) e.encode := rfl

/-- What is sealed tells the kind and the payload, whatever the settings of the reader are. -/
theorem eq_of_plaintext {c : FrameCodec} {kind : MessageKind} {payload content : Bytes} {code flag : UInt8}
    (h : call.plaintext aead secret = code :: flag :: content) (hcode : MessageKind.ofCode code = .ok kind)
    (hunpack : c.unpack flag content = .ok payload) : call.kind = kind ∧ call.payload = payload := by
  unfold plaintext at h
  dsimp only at h
  rw [List.cons.injEq, List.cons.injEq] at h
  obtain ⟨rfl, rfl, rfl⟩ := h
  rw [MessageKind.ofCode_code] at hcode
  exact ⟨Except.ok.inj hcode, (FrameCodec.eq_of_unpack_pack hunpack).symm⟩

/-- The envelope is no forgery: if it opens under the key, one of the calls has sealed it under this key, with the
plaintext that it opens to. With an ideal cipher no envelope is a forgery. -/
def Unforged (aead : Aead) (secret : Bytes) (calls : List Call) (key : Bytes) (e : Envelope) : Prop :=
  ∀ plaintext, aead.decrypt key e.nonce e.ciphertext e.tag = some plaintext →
    ∃ call ∈ calls, ChannelCipher.key secret call.sender = key ∧ call.envelope aead secret = .ok e ∧
      call.plaintext aead secret = plaintext

/-- What a call has sealed is no forgery. -/
theorem unforged_of_envelope {e : Envelope} (hmem : call ∈ calls) (h : call.envelope .aes256Gcm secret = .ok e) :
    Unforged .aes256Gcm secret calls (ChannelCipher.key secret call.sender) e := by
  intro plaintext hopen
  refine ⟨call, hmem, rfl, h, ?_⟩
  obtain ⟨hsealed, hnonce⟩ := ChannelCipher.encrypt_eq_ok_iff.1 h
  have hdecrypt := Aead.decrypt_aes256Gcm (Sha256.length_deriveKey _ _) hsealed
  rw [← hnonce] at hdecrypt
  exact Option.some.inj (hdecrypt.symm.trans hopen)

/-- What stands behind the header of an accepted frame is the envelope of the call. -/
theorem envelope_of_encode {sent : Bytes}
    (h : (call.codec aead secret).encode call.nonce call.kind call.payload = .ok sent) :
    ∃ e, call.envelope aead secret = .ok e ∧ sent.drop FrameHeader.size = e.encode := by
  rw [encode_eq] at h
  rcases he : call.envelope aead secret with fault | e
  · rw [he] at h
    cases h
  · rw [he] at h
    obtain ⟨_, -, -, -, hbody, -⟩ := FrameCodec.header_of_frame h rfl
    exact ⟨e, rfl, hbody⟩

/-- The frame of a call holds no forgery. -/
theorem unforged_of_encode {sent : Bytes} (hmem : call ∈ calls) (hnonce : call.nonce.length = Envelope.nonceLength)
    (h : (call.codec .aes256Gcm secret).encode call.nonce call.kind call.payload = .ok sent) :
    ∀ e, Envelope.decode (sent.drop FrameHeader.size) = .ok e →
      Unforged .aes256Gcm secret calls (ChannelCipher.key secret call.sender) e := by
  intro e he
  obtain ⟨e', henvelope, hbody⟩ := envelope_of_encode h
  rw [hbody, ChannelCipher.decode_encode_derive hnonce henvelope] at he
  cases he
  exact unforged_of_envelope hmem henvelope

/-- The codec of a call and one of the other end with the same limit are those of a channel. -/
theorem peers_codec {c : FrameCodec} (hlimit : call.maxSize = c.maxSize)
    (hc : c.cipher = some (.deriveFor .aes256Gcm secret call.sender.other)) :
    (call.codec .aes256Gcm secret).Peers c :=
  ⟨hlimit, Or.inr ⟨secret, call.sender, rfl, hc⟩⟩

/-- **What is read was sent by the other end.** The two ends of an encrypted channel have been asked to send payloads
of all kinds. Whatever bytes one of them is given as a header and a body, it only reads from them a kind and a payload
that the other one has been asked to send, if the envelope among these bytes is no forgery. -/
theorem exists_call_of_decode {me : ChannelRole} {c : FrameCodec} {hd : FrameHeader} {body payload : Bytes}
    {kind : MessageKind} (hkeys : ChannelCipher.key secret .initiator ≠ ChannelCipher.key secret .responder)
    (hc : c.cipher = some (.deriveFor aead secret me))
    (hideal : ∀ e, Envelope.decode body = .ok e → Unforged aead secret calls (ChannelCipher.key secret me.other) e)
    (h : c.decode hd body = .ok (kind, payload)) :
    ∃ call ∈ calls, call.sender = me.other ∧ call.kind = kind ∧ call.payload = payload := by
  obtain ⟨e, code, flag, content, he, hdecrypt, hcode, hunpack⟩ := FrameCodec.exists_decrypt_of_decode hc h
  obtain ⟨call, hmem, hkey, -, hplaintext⟩ := hideal e he _ (ChannelCipher.decrypt_eq_ok hdecrypt)
  refine ⟨call, hmem, ?_, eq_of_plaintext hplaintext hcode hunpack⟩
  -- an envelope of this end's own is sealed under the other key
  cases hs : call.sender <;> cases me <;> rw [hs] at hkey
  · exact absurd hkey hkeys
  · rfl
  · rfl
  · exact absurd hkey.symm hkeys

/-- Both ends have sent a message, and the initiator reads the one of the responder. -/
theorem exists_call_of_decode_two :
    let hello : Call := ⟨.initiator, none, 1024, 500, Envelope.nonceOf 0, .handshakeRequest, [1, 2, 3]⟩
    let page : Call := ⟨.responder, some .lz4, 0, 500, Envelope.nonceOf 0, .changeSet, List.replicate 80 0⟩
    let c : FrameCodec := ⟨some (.deriveFor .aes256Gcm [7] .initiator), none, 1024, 500⟩
    ∃ sent hd, (page.codec .aes256Gcm [7]).encode page.nonce page.kind page.payload = .ok sent ∧
      c.decode hd (sent.drop FrameHeader.size) = .ok (page.kind, page.payload) ∧
      ∃ call ∈ [hello, page],
        call.sender = .responder ∧ call.kind = page.kind ∧ call.payload = page.payload := by
  have hkeys : ChannelCipher.key [7] .initiator ≠ ChannelCipher.key [7] .responder := by decide +kernel
  intro hello page c
  have hpeers : (page.codec .aes256Gcm [7]).Peers c := peers_codec rfl rfl
  have hnonce : page.nonce.length = Envelope.nonceLength := Bytes.length_bigEndian _ _
  have hinverts : ∀ s, page.compression = some s → s.Inverts page.payload := by
    intro s _
    exact Compression.inverts_iff.2 (by decide)
  obtain ⟨sent, hsent⟩ := FrameCodec.exists_encode hpeers hnonce page.kind page.payload (by decide) (by decide)
  obtain ⟨hd, -, -, -, hdecode⟩ := FrameCodec.decode_frame hpeers hnonce (by decide) hsent
  rw [FrameCodec.unpack_pack (by decide) hinverts] at hdecode
  have hmem : page ∈ [hello, page] := List.mem_cons_of_mem hello List.mem_cons_self
  have hc : c.cipher = some (.deriveFor .aes256Gcm [7] .initiator) := rfl
  have hideal := unforged_of_encode hmem hnonce hsent
  exact ⟨sent, hd, hsent, hdecode, exists_call_of_decode hkeys hc hideal hdecode⟩

end Call

end DocMesh
