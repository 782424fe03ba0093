/-
# Encryption of a channel

The two ends of a channel agree on a secret and derive two keys from it, one for each direction: what one
end seals, only the other end can open.
-/
import DocMesh.Channel.Envelope
import DocMesh.Crypto.Gcm
import DocMesh.Crypto.Sha256
import DocMesh.Crypto.X25519

namespace DocMesh

/-- The end of a channel. -/
inductive ChannelRole where
  /-- The end that opened the channel. -/
  | initiator
  /-- The end that accepted it. -/
  | responder
  deriving DecidableEq, Inhabited

namespace ChannelRole

/-- The other end. -/
def other : ChannelRole → ChannelRole
  | initiator => responder
  | responder => initiator

/-- The number of the key for what the end sends. -/
def keyNumber : ChannelRole → UInt8
  | initiator => 0
  | responder => 1

end ChannelRole

/-- The keys of one end of a channel. -/
structure ChannelCipher where
  /-- How frames are encrypted. -/
  aead : Aead := .aes256Gcm
  /-- The key for what this end sends. -/
  sealKey : Bytes
  /-- The key for what the other end sends. -/
  openKey : Bytes

namespace ChannelCipher

/-- What the keys of a channel are derived for. -/
def purpose : Bytes := Bytes.ofString "entgldb-channel-v1"

/-- The key for what the given end sends. -/
def key (secret : Bytes) (sender : ChannelRole) : Bytes :=
  Sha256.deriveKey secret (purpose ++ [sender.keyNumber])

/-- The keys of one end of a channel with the given secret. -/
def derive (secret : Bytes) (role : ChannelRole) : ChannelCipher :=
  ⟨.aes256Gcm, key secret role, key secret role.other⟩

/-- The keys of the other end. -/
def other (c : ChannelCipher) : ChannelCipher := ⟨c.aead, c.openKey, c.sealKey⟩

/-- Seals a plaintext. The nonce must not be used twice. -/
def encrypt (c : ChannelCipher) (nonce plaintext : Bytes) : Except ProtocolError Envelope :=
  match c.aead.encrypt c.sealKey nonce plaintext with
  | some (ciphertext, tag) => .ok ⟨ciphertext, nonce, tag⟩
  | none => .error .encryption

/-- Opens what the other end has sealed. -/
def decrypt (c : ChannelCipher) (e : Envelope) : Except ProtocolError Bytes :=
  if e.nonce.length ≠ Envelope.nonceLength ∨ e.tag.length ≠ Envelope.tagLength then
    .error (.invalidEnvelope "bad nonce or tag length")
  else
    match c.aead.decrypt c.openKey e.nonce e.ciphertext e.tag with
    | some plaintext => .ok plaintext
    | none => .error .decryption

end ChannelCipher

/-! ## Key agreement -/

namespace KeyAgreement

/-- The length of a public key. -/
def publicKeyLength : Nat := 32

/-- The keys of the end of a channel that knows `secret` and has received the other's public key. A public key that would make
the outcome known to everyone is refused. -/
def complete (secret peerPublic : Bytes) (role : ChannelRole) : Except ProtocolError ChannelCipher :=
  let shared := X25519.multiply secret peerPublic
  if shared.all (· == 0) then .error (.keyExchange "peer sent a low-order public key")
  else .ok (.derive shared role)

end KeyAgreement

end DocMesh
