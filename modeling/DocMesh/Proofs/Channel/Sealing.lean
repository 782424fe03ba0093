/-
# Opening what has been sealed

In counter mode a text is added to a key stream that is long enough, so doing it twice gives the text back. The
round keys of a derived key have the lengths that this needs. An envelope is read back from its written form,
and what one end of a channel has sealed, the other end opens.

Main statements:

* `Aes.length_encryptBlock` : the block cipher gives whole blocks;
* `Gcm.crypt_crypt` : encrypting twice gives the plaintext;
* `Aead.decrypt_aes256Gcm` : a sealed plaintext opens again;
* `Envelope.decode_encode` : an envelope is read back;
* `ChannelCipher.decrypt_derive` : each end opens what the other one has sealed.
-/
import DocMesh.Channel.Cipher
import DocMesh.Proofs.Cbor.RoundTrip

namespace DocMesh

/-! ## Round keys -/

namespace Aes

variable {keys ws : List Bytes} {k s bs : Bytes} {n count i : Nat} {constant : UInt8}

@[simp] theorem length_pieces (n count : Nat) (bs : Bytes) : (pieces n count bs).length = count := by
  induction count generalizing bs with
  | zero => rfl
  | succ count ih => rw [pieces, List.length_cons, ih]

/-- All pieces of a list that is long enough have the same length. -/
theorem length_of_mem_pieces (h : n * count ≤ bs.length) : ∀ p ∈ pieces n count bs, p.length = n := by
  induction count generalizing bs with
  | zero => exact List.forall_mem_nil _
  | succ count ih =>
    rw [Nat.mul_succ] at h
    rw [pieces, List.forall_mem_cons]
    constructor
    · rw [List.length_take]
      omega
    · apply ih
      rw [List.length_drop]
      omega

/-- The extended key consists of words of four bytes. -/
theorem expand_words (h : ∀ w ∈ ws, w.length = 4) (hws : 8 ≤ ws.length) :
    (expand n i constant ws).length = ws.length + n ∧ ∀ w ∈ expand n i constant ws, w.length = 4 := by
  induction n generalizing i constant ws with
  | zero => exact ⟨rfl, h⟩
  | succ n ih =>
    have heighth : (ws.getD 7 []).length = 4 := by
      rw [List.getD_eq_getElem?_getD, List.getElem?_eq_getElem (show 7 < ws.length by omega)]
      exact h _ (List.getElem_mem _)
    have hlast : (ws.headD []).length = 4 := by
      cases ws with
      | nil => simp at hws
      | cons w ws => exact h w List.mem_cons_self
    have hnext : ∀ w : Bytes, w.length = 4 → ∀ (i : Nat) (constant : UInt8),
        (expand n i constant (w :: ws)).length = ws.length + (n + 1) ∧
          ∀ v ∈ expand n i constant (w :: ws), v.length = 4 := by
      intro w hw i constant
      refine (ih (List.forall_mem_cons.2 ⟨hw, h⟩) (Nat.le_succ_of_le hws)).imp_left fun hlength => ?_
      rw [hlength, List.length_cons]
      omega
    rw [expand]
    apply hnext
    generalize ws.headD [] = last at hlast ⊢
    rw [Bytes.length_xor, heighth]
    split_ifs <;> simp [hlast]

/-- A key of 32 bytes has 15 round keys of 16 bytes. -/
theorem roundKeys_blocks (h : k.length = 32) :
    (roundKeys k).length = 15 ∧ ∀ b ∈ roundKeys k, b.length = 16 := by
  have hwords : ∀ w ∈ (pieces 4 8 k).reverse, w.length = 4 := by
    intro w hw
    exact length_of_mem_pieces (by omega) w (List.mem_reverse.1 hw)
  obtain ⟨hlength, hall⟩ := @expand_words _ 52 8 1 hwords (by simp)
  rw [List.length_reverse, length_pieces] at hlength
  refine ⟨length_pieces _ _ _, length_of_mem_pieces ?_⟩
  have hlengths : (expand 52 8 1 (pieces 4 8 k).reverse).reverse.map List.length = List.replicate 60 4 := by
    rw [List.eq_replicate_iff, List.length_map, List.length_reverse]
    exact ⟨hlength, by simpa using hall⟩
  rw [List.length_flatten, hlengths]
  decide

/-! ## Blocks -/

theorem length_rounds (hkeys : keys ≠ []) (h : ∀ b ∈ keys, b.length = 16) (s : Bytes) :
    (rounds s keys).length = 16 := by
  induction keys generalizing s with
  | nil => exact absurd rfl hkeys
  | cons b keys ih =>
    cases keys with
    | nil => simp [rounds, shiftRows, h b List.mem_cons_self]
    | cons c keys =>
      rw [rounds]
      · exact ih (List.cons_ne_nil c keys) (fun d hd => h d (List.mem_cons_of_mem b hd)) _
      · exact List.cons_ne_nil c keys

/-- The block cipher gives whole blocks. -/
theorem length_encryptBlock (hkeys : 2 ≤ keys.length) (h : ∀ b ∈ keys, b.length = 16) (s : Bytes) :
    (encryptBlock keys s).length = 16 := by
  cases keys with
  | nil => simp at hkeys
  | cons b keys =>
    have hne : keys ≠ [] := by
      rintro rfl
      simp at hkeys
    exact length_rounds hne (fun d hd => h d (List.mem_cons_of_mem b hd)) _

end Aes

/-! ## Counter mode -/

namespace Gcm

variable {keys : List Bytes} {nonce bs : Bytes} {n i : Nat}

theorem length_keyStream (hkeys : 2 ≤ keys.length) (h : ∀ b ∈ keys, b.length = 16) (nonce : Bytes) (n i : Nat) :
    (keyStream keys nonce n i).length = 16 * n := by
  induction n generalizing i with
  | zero => rfl
  | succ n ih =>
    rw [keyStream, List.length_append, Aes.length_encryptBlock hkeys h, ih]
    omega

/-- The key stream is long enough for the text. -/
theorem length_le_length_keyStream (hkeys : 2 ≤ keys.length) (h : ∀ b ∈ keys, b.length = 16)
    (nonce bs : Bytes) : bs.length ≤ (keyStream keys nonce (blockCount bs) 2).length := by
  rw [length_keyStream hkeys h, blockCount]
  omega

@[simp] theorem length_crypt (hkeys : 2 ≤ keys.length) (h : ∀ b ∈ keys, b.length = 16) (nonce bs : Bytes) :
    (crypt keys nonce bs).length = bs.length := by
  rw [crypt, Bytes.length_xor, Nat.min_eq_left (length_le_length_keyStream hkeys h nonce bs)]

/-- Encrypting twice gives the plaintext. -/
theorem crypt_crypt (hkeys : 2 ≤ keys.length) (h : ∀ b ∈ keys, b.length = 16) (nonce bs : Bytes) :
    crypt keys nonce (crypt keys nonce bs) = bs := by
  have hcount : blockCount (crypt keys nonce bs) = blockCount bs := by
    rw [blockCount, blockCount, length_crypt hkeys h]
  rw [crypt, hcount]
  exact Bytes.xor_xor_cancel (length_le_length_keyStream hkeys h nonce bs)

theorem length_tag (hkeys : 2 ≤ keys.length) (h : ∀ b ∈ keys, b.length = 16) (nonce bs : Bytes) :
    (tag keys nonce bs).length = 16 := by
  simp [tag, Aes.length_encryptBlock hkeys h]

end Gcm

namespace Aead

variable {key nonce plaintext ciphertext tag : Bytes}

theorem encrypt_aes256Gcm_eq_some_iff : aes256Gcm.encrypt key nonce plaintext = some (ciphertext, tag) ↔
    plaintext.length ≤ Gcm.maxLength ∧ Gcm.crypt (Aes.roundKeys key) nonce plaintext = ciphertext ∧
      Gcm.tag (Aes.roundKeys key) nonce ciphertext = tag := by
  simp only [aes256Gcm]
  split_ifs with hlong
  · simp
    omega
  · rw [Option.some_inj, Prod.mk.injEq]
    constructor
    · rintro ⟨rfl, rfl⟩
      exact ⟨by omega, rfl, rfl⟩
    · rintro ⟨-, rfl, rfl⟩
      exact ⟨rfl, rfl⟩

theorem exists_encrypt_aes256Gcm (key nonce : Bytes) (h : plaintext.length ≤ Gcm.maxLength) :
    ∃ ciphertext tag, aes256Gcm.encrypt key nonce plaintext = some (ciphertext, tag) :=
  ⟨_, _, encrypt_aes256Gcm_eq_some_iff.2 ⟨h, rfl, rfl⟩⟩

/-- What is sealed has the lengths that an envelope asks for. -/
theorem lengths_aes256Gcm (hkey : key.length = 32)
    (h : aes256Gcm.encrypt key nonce plaintext = some (ciphertext, tag)) :
    ciphertext.length = plaintext.length ∧ tag.length = Envelope.tagLength := by
  obtain ⟨hkeys, hblocks⟩ := Aes.roundKeys_blocks hkey
  have hkeys : 2 ≤ (Aes.roundKeys key).length := by omega
  obtain ⟨-, rfl, rfl⟩ := encrypt_aes256Gcm_eq_some_iff.1 h
  exact ⟨Gcm.length_crypt hkeys hblocks nonce plaintext, Gcm.length_tag hkeys hblocks nonce _⟩

/-- **A sealed plaintext opens again** under the same key, of 32 bytes, and the same nonce. -/
theorem decrypt_aes256Gcm (hkey : key.length = 32)
    (h : aes256Gcm.encrypt key nonce plaintext = some (ciphertext, tag)) :
    aes256Gcm.decrypt key nonce ciphertext tag = some plaintext := by
  obtain ⟨hkeys, hblocks⟩ := Aes.roundKeys_blocks hkey
  have hkeys : 2 ≤ (Aes.roundKeys key).length := by omega
  have hlength := (lengths_aes256Gcm hkey h).1
  obtain ⟨hlong, rfl, rfl⟩ := encrypt_aes256Gcm_eq_some_iff.1 h
  simp only [aes256Gcm]
  rw [if_pos, Gcm.crypt_crypt hkeys hblocks]
  simp
  omega

end Aead

/-! ## Envelopes -/

open Cbor (Item)

namespace Envelope

variable {e : Envelope}

/-- The fields of the record that is written. -/
def fields (e : Envelope) : List (String × Item) :=
  [("ciphertext", .ofBytes e.ciphertext), ("nonce", .ofBytes e.nonce), ("auth_tag", .ofBytes e.tag)]

/-- An envelope is read back. -/
theorem decode_encode (hciphertext : e.ciphertext.length < Cbor.headLimit) (hnonce : e.nonce.length = nonceLength)
    (htag : e.tag.length = tagLength) : decode e.encode = .ok e := by
  have hnodup : ["ciphertext", "nonce", "auth_tag"].Nodup := by decide
  have hnames : ∀ name ∈ ["ciphertext", "nonce", "auth_tag"], name.utf8ByteSize ≤ Cbor.nameLimit := by decide
  have hbytes : ∀ i ∈ [Item.ofBytes e.ciphertext, .ofBytes e.nonce, .ofBytes e.tag], i.Fits := by
    have hlimit : 16 < Cbor.headLimit := by decide
    unfold nonceLength at hnonce
    unfold tagLength at htag
    simp only [List.forall_mem_cons, Item.ofBytes, Item.Fits]
    exact ⟨hciphertext, by omega, by omega, List.forall_mem_nil _⟩
  have hfits : (Item.record e.fields).Fits := Item.fits_record (show 3 < Cbor.headLimit by decide) hnames hbytes
  have hfields := Item.fields?_record 1 e.fields hnodup hnames
  have hitem : ofItem? (Item.record e.fields) = some e := by
    rw [ofItem?, show ["ciphertext", "nonce", "auth_tag"] = e.fields.map Prod.fst from rfl, hfields]
    rfl
  have hparse := Item.parse?_encode hfits []
  rw [List.append_nil] at hparse
  rw [decode, encode, show e.item = Item.record e.fields from rfl, hparse, Option.bind_some]
  dsimp only
  rw [hitem]
  simp [hnonce, htag]

/-- What the written form has beside the ciphertext: the head of the ciphertext, and 57 bytes. -/
theorem length_encode (hnonce : e.nonce.length = nonceLength) (htag : e.tag.length = tagLength) :
    e.encode.length = e.ciphertext.length + (Cbor.head 2 e.ciphertext.length).length + 57 := by
  unfold nonceLength at hnonce
  unfold tagLength at htag
  have hname₁ : "ciphertext".utf8ByteSize = 10 := rfl
  have hname₂ : "nonce".utf8ByteSize = 5 := rfl
  have hname₃ : "auth_tag".utf8ByteSize = 8 := rfl
  simp only [encode, item, Item.record, List.map_cons, List.map_nil, Item.encode, Item.encodeMembers,
    Item.length_encode_ofString, Item.length_encode_ofBytes, List.length_append, List.length_cons, List.length_nil,
    hnonce, htag, hname₁, hname₂, hname₃]
  rw [show (Cbor.head 5 (0 + 1 + 1 + 1)).length = 1 from rfl, show (Cbor.head 3 10).length = 1 from rfl,
    show (Cbor.head 3 5).length = 1 from rfl, show (Cbor.head 2 12).length = 1 from rfl,
    show (Cbor.head 3 8).length = 1 from rfl, show (Cbor.head 2 16).length = 1 from rfl]
  omega

end Envelope

/-! ## Keys -/

theorem Sha256.length_deriveKey (secret purpose : Bytes) : (deriveKey secret purpose).length = 32 := by
  simp [deriveKey, hmac, hash, State.bytes]

namespace ChannelCipher

variable {secret nonce plaintext : Bytes} {role : ChannelRole} {e : Envelope}

theorem length_sealKey_derive (secret : Bytes) (role : ChannelRole) : (derive secret role).sealKey.length = 32 :=
  Sha256.length_deriveKey _ _

theorem openKey_derive_other (secret : Bytes) (role : ChannelRole) :
    (derive secret role.other).openKey = (derive secret role).sealKey := by
  cases role <;> rfl

theorem encrypt_eq_ok_iff {c : ChannelCipher} : c.encrypt nonce plaintext = .ok e ↔
    c.aead.encrypt c.sealKey nonce plaintext = some (e.ciphertext, e.tag) ∧ e.nonce = nonce := by
  rw [encrypt]
  rcases c.aead.encrypt c.sealKey nonce plaintext with _ | ⟨ciphertext, tag⟩
  · simp
  · simp only [Except.ok.injEq, Option.some_inj, Prod.mk.injEq]
    constructor
    · rintro rfl
      exact ⟨⟨rfl, rfl⟩, rfl⟩
    · rintro ⟨⟨rfl, rfl⟩, rfl⟩
      rfl

/-- Every plaintext that is not too long can be sealed. -/
theorem exists_encrypt_derive (secret : Bytes) (role : ChannelRole) (nonce : Bytes)
    (h : plaintext.length ≤ Gcm.maxLength) : ∃ e, (derive secret role).encrypt nonce plaintext = .ok e := by
  obtain ⟨ciphertext, tag, hsealed⟩ := Aead.exists_encrypt_aes256Gcm (derive secret role).sealKey nonce h
  exact ⟨⟨ciphertext, nonce, tag⟩, encrypt_eq_ok_iff.2 ⟨hsealed, rfl⟩⟩

/-- An envelope of a derived key has the right lengths. -/
theorem lengths_encrypt_derive (h : (derive secret role).encrypt nonce plaintext = .ok e) :
    e.ciphertext.length = plaintext.length ∧ plaintext.length ≤ Gcm.maxLength ∧ e.nonce = nonce ∧
      e.tag.length = Envelope.tagLength := by
  obtain ⟨hsealed, hnonce⟩ := encrypt_eq_ok_iff.1 h
  obtain ⟨hlength, htag⟩ := Aead.lengths_aes256Gcm (length_sealKey_derive secret role) hsealed
  exact ⟨hlength, (Aead.encrypt_aes256Gcm_eq_some_iff.1 hsealed).1, hnonce, htag⟩

/-- **Each end opens what the other one has sealed.** -/
theorem decrypt_derive (hnonce : nonce.length = Envelope.nonceLength)
    (h : (derive secret role).encrypt nonce plaintext = .ok e) :
    (derive secret role.other).decrypt e = .ok plaintext := by
  obtain ⟨-, -, rfl, htag⟩ := lengths_encrypt_derive h
  have hopen := Aead.decrypt_aes256Gcm (length_sealKey_derive secret role) (encrypt_eq_ok_iff.1 h).1
  rw [← openKey_derive_other] at hopen
  rw [decrypt, if_neg (by simp [hnonce, htag]), show (derive secret role.other).aead = .aes256Gcm from rfl, hopen]

/-- The envelope of a derived key is read back from its written form. -/
theorem decode_encode_derive (hnonce : nonce.length = Envelope.nonceLength)
    (h : (derive secret role).encrypt nonce plaintext = .ok e) : Envelope.decode e.encode = .ok e := by
  obtain ⟨hlength, hlong, rfl, htag⟩ := lengths_encrypt_derive h
  have hlimit : Gcm.maxLength < Cbor.headLimit := by decide
  have hciphertext : e.ciphertext.length ≤ Gcm.maxLength := by
    rw [hlength]
    exact hlong
  exact Envelope.decode_encode (Nat.lt_of_le_of_lt hciphertext hlimit) hnonce htag

end ChannelCipher

end DocMesh
