/-
# Frames

A message travels in a frame: a header of six bytes with the length, the kind and the compression flag of
the payload, and the payload itself. On an encrypted channel the kind, the flag and the payload are sealed
into an envelope, which is the payload of an outer frame.
-/
import DocMesh.Channel.Cipher
import DocMesh.Compression.Scheme
import DocMesh.Message.Basic

namespace DocMesh

/-! ## Headers -/

/-- What stands in front of a payload. -/
structure FrameHeader where
  /-- The length of the payload. -/
  length : UInt32
  /-- The code of the kind of the message. -/
  kind : UInt8
  /-- How the payload is compressed. -/
  flag : UInt8
  deriving DecidableEq, Inhabited

namespace FrameHeader

/-- The length of a header. -/
def size : Nat := 6

/-- The written form of a header. -/
def encode (h : FrameHeader) : Bytes := Bytes.littleEndian 4 h.length.toNat ++ [h.kind, h.flag]

/-- The header with the given written form. -/
def decode? : Bytes → Option FrameHeader
  | [a, b, c, d, kind, flag] => some ⟨UInt32.ofNat (Bytes.ofLittleEndian [a, b, c, d]), kind, flag⟩
  | _ => none

@[simp] theorem decode?_encode (h : FrameHeader) : decode? h.encode = some h := by
  have e : decode? h.encode =
      some ⟨UInt32.ofNat (Bytes.ofLittleEndian (Bytes.littleEndian 4 h.length.toNat)), h.kind, h.flag⟩ := rfl
  rw [e, Bytes.ofLittleEndian_littleEndian 4 _ (by simpa using h.length.toNat_lt)]
  simp

end FrameHeader

/-! ## Codecs -/

/-- How one end of a channel writes and reads frames. -/
structure FrameCodec where
  /-- The keys, if the channel is encrypted. -/
  cipher : Option ChannelCipher := none
  /-- How payloads are compressed before they are sent. -/
  compression : Option Compression := none
  /-- Payloads of at most this length are not compressed. -/
  threshold : Nat := Compression.defaultThreshold
  /-- The greatest length of a payload. -/
  maxSize : Nat := 16 * 1024 * 1024
  deriving Inhabited

namespace FrameCodec

/-- The part of a frame that is kept free for what is around the entries of a page. -/
def reserve : Nat := 1024

/-- How many bytes the entries of a page may take, where payloads have at most `maxSize` bytes. -/
def pageBudget (maxSize : Nat) : Nat := max (maxSize - reserve) 1

/-- The greatest length that a header can tell. -/
def headerLimit : Nat := UInt32.size - 1

/-! ## Writing -/

/-- The flag and the content of a frame with the given payload. -/
def pack (c : FrameCodec) (payload : Bytes) : UInt8 × Bytes :=
  match c.compression with
  | none => (Compression.flagOf none, payload)
  | some s =>
    match s.compressIfSmaller c.threshold payload with
    | some compressed => (Compression.flagOf (some s), compressed)
    | none => (Compression.flagOf none, payload)

/-- The frame with the given kind, flag and content. -/
def frame (c : FrameCodec) (kind flag : UInt8) (content : Bytes) : Except ProtocolError Bytes :=
  if c.maxSize < content.length then .error (.frameTooLarge content.length c.maxSize)
  else if headerLimit < content.length then .error (.frameTooLarge content.length headerLimit)
  else .ok (FrameHeader.encode ⟨UInt32.ofNat content.length, kind, flag⟩ ++ content)

/-- The frame with the given payload. The nonce is for the envelope on an encrypted channel. -/
def encode (c : FrameCodec) (nonce : Bytes) (kind : MessageKind) (payload : Bytes) :
    Except ProtocolError Bytes :=
  let (flag, content) := c.pack payload
  match c.cipher with
  | none => c.frame kind.code flag content
  | some cipher =>
    match cipher.encrypt nonce (kind.code :: flag :: content) with
    | .error e => .error e
    | .ok envelope => c.frame MessageKind.envelope.code (Compression.flagOf none) envelope.encode

/-- The frame with the given message. -/
def encodeMessage (c : FrameCodec) (nonce : Bytes) (m : Message) : Except ProtocolError Bytes :=
  c.encode nonce m.kind m.encode

/-! ## Reading -/

/-- Refuses a header whose payload would be too long. -/
def checkHeader (c : FrameCodec) (h : FrameHeader) : Except ProtocolError Unit :=
  if c.maxSize < h.length.toNat then .error (.frameTooLarge h.length.toNat c.maxSize) else .ok ()

/-- The code of the kind, the flag and the content of a frame, after it has been opened. -/
def opened (c : FrameCodec) (kind : MessageKind) (h : FrameHeader) (body : Bytes) :
    Except ProtocolError (UInt8 × UInt8 × Bytes) :=
  match c.cipher with
  | none =>
    if kind = .envelope then .error (.securityMismatch "encrypted frame on a plaintext channel")
    else .ok (h.kind, h.flag, body)
  | some cipher =>
    if kind = .envelope then do
      match ← cipher.decrypt (← Envelope.decode body) with
      | kind :: flag :: content => .ok (kind, flag, content)
      | _ => .error (.invalidEnvelope "sealed frame shorter than its header")
    else .error (.securityMismatch "plaintext frame on an encrypted channel")

/-- The payload that is packed into the content of a frame. -/
def unpack (c : FrameCodec) (flag : UInt8) (content : Bytes) : Except ProtocolError Bytes := do
  match ← Compression.ofFlag flag with
  | none => .ok content
  | some s => s.decompress c.maxSize content

/-- The kind and the payload of a frame. -/
def decode (c : FrameCodec) (h : FrameHeader) (body : Bytes) : Except ProtocolError (MessageKind × Bytes) := do
  c.checkHeader h
  let (code, flag, content) ← c.opened (← MessageKind.ofCode h.kind) h body
  let kind ← MessageKind.ofCode code
  if kind = .envelope then .error (.invalidEnvelope "nested envelope")
  else return (kind, ← c.unpack flag content)

/-- The message of a frame. -/
def decodeMessage (c : FrameCodec) (h : FrameHeader) (body : Bytes) : Except ProtocolError Message := do
  let (kind, payload) ← c.decode h body
  Message.decode kind payload

end FrameCodec

end DocMesh
