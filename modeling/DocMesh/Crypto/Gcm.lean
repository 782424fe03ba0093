/-
# Authenticated encryption

`Aead` is what a channel asks of a cipher: sealing a plaintext under a key and a nonce gives a ciphertext
and a tag, and only these open again under the same key and nonce. `Aead.aes256Gcm` is AES-256 in
Galois/counter mode without associated data.
-/
import DocMesh.Crypto.Aes

namespace DocMesh

/-- A cipher for authenticated encryption. -/
structure Aead where
  /-- The ciphertext and the tag of a plaintext; none if the plaintext is too long. -/
  encrypt : (key nonce plaintext : Bytes) → Option (Bytes × Bytes)
  /-- The plaintext; none if ciphertext and tag do not belong to the key and the nonce. -/
  decrypt : (key nonce ciphertext tag : Bytes) → Option Bytes

namespace Gcm

/-! ## Arithmetic on blocks -/

/-- The block as a polynomial, the coefficient of 1 first. -/
def ofBytes (bs : Bytes) : BitVec 128 := BitVec.ofNat 128 (Bytes.ofBigEndian bs)

/-- The product with `x` of a polynomial of degree below 128, modulo `x¹²⁸ + x⁷ + x² + x + 1`. -/
def timesX (v : BitVec 128) : BitVec 128 :=
  if v.getLsbD 0 then v >>> 1 ^^^ (0xe1 : BitVec 128) <<< 120 else v >>> 1

/-- The sum of `z` and the product of two polynomials, of which the first is given by its `n` last coefficients. -/
def addProduct (x : BitVec 128) : Nat → (v z : BitVec 128) → BitVec 128
  | 0, _, z => z
  | n + 1, v, z => addProduct x n (timesX v) (if x.getLsbD n then z ^^^ v else z)

/-- The product of two polynomials. -/
def multiply (x y : BitVec 128) : BitVec 128 := addProduct x 128 y 0

/-- The first 16 bytes of a byte string, filled up by zeros. -/
def firstBlock (bs : Bytes) : Bytes :=
  let b := bs.take 16
  b ++ List.replicate (16 - b.length) 0

/-- The number of blocks of a byte string, the last of which may be shorter. -/
def blockCount (bs : Bytes) : Nat := (bs.length + 15) / 16

/-- Hashes the first `n` blocks of a byte string into `y`. -/
def hashBlocks (h : BitVec 128) : Nat → BitVec 128 → Bytes → BitVec 128
  | 0, y, _ => y
  | n + 1, y, bs => hashBlocks h n (multiply (y ^^^ ofBytes (firstBlock bs)) h) (bs.drop 16)

/-- The keyed hash of a ciphertext and its length. -/
def hash (h : BitVec 128) (ciphertext : Bytes) : BitVec 128 :=
  let y := hashBlocks h (blockCount ciphertext) 0 ciphertext
  multiply (y ^^^ BitVec.ofNat 128 (8 * ciphertext.length)) h

/-! ## Encryption -/

/-- The counter block with the given number. -/
def counterBlock (nonce : Bytes) (n : Nat) : Bytes := nonce ++ Bytes.bigEndian 4 n

/-- The first `n` blocks of the key stream, from the given number on. -/
def keyStream (keys : List Bytes) (nonce : Bytes) : (n i : Nat) → Bytes
  | 0, _ => []
  | n + 1, i => Aes.encryptBlock keys (counterBlock nonce i) ++ keyStream keys nonce n (i + 1)

/-- Encrypts or decrypts a byte string. -/
def crypt (keys : List Bytes) (nonce bs : Bytes) : Bytes :=
  Bytes.xor bs (keyStream keys nonce (blockCount bs) 2)

/-- The tag of a ciphertext. -/
def tag (keys : List Bytes) (nonce ciphertext : Bytes) : Bytes :=
  let h := ofBytes (Aes.encryptBlock keys (List.replicate 16 0))
  Bytes.xor (Bytes.bigEndian 16 (hash h ciphertext).toNat) (Aes.encryptBlock keys (counterBlock nonce 1))

/-- The greatest length of a plaintext. -/
def maxLength : Nat := 0x1000000000

end Gcm

/-- AES-256 in Galois/counter mode, with nonces of 12 bytes and tags of 16. -/
def Aead.aes256Gcm : Aead where
  encrypt key nonce plaintext :=
    if Gcm.maxLength < plaintext.length then none
    else
      let keys := Aes.roundKeys key
      let ciphertext := Gcm.crypt keys nonce plaintext
      some (ciphertext, Gcm.tag keys nonce ciphertext)
  decrypt key nonce ciphertext tag :=
    let keys := Aes.roundKeys key
    if ciphertext.length ≤ Gcm.maxLength && Gcm.tag keys nonce ciphertext == tag then
      some (Gcm.crypt keys nonce ciphertext)
    else none

end DocMesh
