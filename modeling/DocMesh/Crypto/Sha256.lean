/-
# SHA-256

The hash function SHA-256, and the keyed hash and the key derivation that are built on it.
-/
import DocMesh.Bytes

namespace DocMesh.Sha256

/-! ## Constants -/

/-- The first 32 bits of the fractional parts of the cube roots of the first 64 primes. -/
def roundConstants : List UInt32 :=
  [0x428a2f98, 0x71374491, 0xb5c0fbcf, 0xe9b5dba5, 0x3956c25b, 0x59f111f1, 0x923f82a4, 0xab1c5ed5,
    0xd807aa98, 0x12835b01, 0x243185be, 0x550c7dc3, 0x72be5d74, 0x80deb1fe, 0x9bdc06a7, 0xc19bf174,
    0xe49b69c1, 0xefbe4786, 0x0fc19dc6, 0x240ca1cc, 0x2de92c6f, 0x4a7484aa, 0x5cb0a9dc, 0x76f988da,
    0x983e5152, 0xa831c66d, 0xb00327c8, 0xbf597fc7, 0xc6e00bf3, 0xd5a79147, 0x06ca6351, 0x14292967,
    0x27b70a85, 0x2e1b2138, 0x4d2c6dfc, 0x53380d13, 0x650a7354, 0x766a0abb, 0x81c2c92e, 0x92722c85,
    0xa2bfe8a1, 0xa81a664b, 0xc24b8b70, 0xc76c51a3, 0xd192e819, 0xd6990624, 0xf40e3585, 0x106aa070,
    0x19a4c116, 0x1e376c08, 0x2748774c, 0x34b0bcb5, 0x391c0cb3, 0x4ed8aa4a, 0x5b9cca4f, 0x682e6ff3,
    0x748f82ee, 0x78a5636f, 0x84c87814, 0x8cc70208, 0x90befffa, 0xa4506ceb, 0xbef9a3f7, 0xc67178f2]

/-- The eight words of the state. -/
structure State where
  a : UInt32
  b : UInt32
  c : UInt32
  d : UInt32
  e : UInt32
  f : UInt32
  g : UInt32
  h : UInt32
  deriving DecidableEq

namespace State

/-- The first 32 bits of the fractional parts of the square roots of the first eight primes. -/
def initial : State :=
  ⟨0x6a09e667, 0xbb67ae85, 0x3c6ef372, 0xa54ff53a, 0x510e527f, 0x9b05688c, 0x1f83d9ab, 0x5be0cd19⟩

/-- The wordwise sum. -/
def add (s t : State) : State :=
  ⟨s.a + t.a, s.b + t.b, s.c + t.c, s.d + t.d, s.e + t.e, s.f + t.f, s.g + t.g, s.h + t.h⟩

/-- The bytes of the state. -/
def bytes (s : State) : Bytes :=
  [s.a, s.b, s.c, s.d, s.e, s.f, s.g, s.h].flatMap fun w => Bytes.bigEndian 4 w.toNat

end State

/-! ## Compression of blocks -/

/-- The word turned to the right. -/
def rotate (w : UInt32) (n : UInt32) : UInt32 := w >>> n ||| w <<< (32 - n)

/-- One round with a word of the schedule and its constant. -/
def round (s : State) (w k : UInt32) : State :=
  let s₁ := rotate s.e 6 ^^^ rotate s.e 11 ^^^ rotate s.e 25
  let choice := (s.e &&& s.f) ^^^ (~~~s.e &&& s.g)
  let t₁ := s.h + s₁ + choice + k + w
  let s₀ := rotate s.a 2 ^^^ rotate s.a 13 ^^^ rotate s.a 22
  let majority := (s.a &&& s.b) ^^^ (s.a &&& s.c) ^^^ (s.b &&& s.c)
  ⟨t₁ + (s₀ + majority), s.a, s.b, s.c, s.d + t₁, s.e, s.f, s.g⟩

/-- The word of the schedule after the given ones, the latest of which comes first. -/
def nextWord (ws : List UInt32) : UInt32 :=
  let w₂ := ws.getD 1 0
  let w₁₅ := ws.getD 14 0
  (rotate w₂ 17 ^^^ rotate w₂ 19 ^^^ w₂ >>> 10) + ws.getD 6 0 +
    (rotate w₁₅ 7 ^^^ rotate w₁₅ 18 ^^^ w₁₅ >>> 3) + ws.getD 15 0

/-- The given words, the latest of which comes first, with `n` more. -/
def extend : Nat → List UInt32 → List UInt32
  | 0, ws => ws
  | n + 1, ws => extend n (nextWord ws :: ws)

/-- The words of a byte string. -/
def words : Bytes → List UInt32
  | a :: b :: c :: d :: rest => UInt32.ofNat (Bytes.ofBigEndian [a, b, c, d]) :: words rest
  | _ => []

/-- The 64 words that a block of 64 bytes brings to the rounds. -/
def schedule (block : Bytes) : List UInt32 := (extend 48 (words block).reverse).reverse

/-- The state after a block of 64 bytes. -/
def compress (s : State) (block : Bytes) : State :=
  s.add (((schedule block).zip roundConstants).foldl (fun s wk => round s wk.1 wk.2) s)

/-! ## The hash function -/

/-- The state after the first `n` blocks. -/
def compressBlocks : Nat → State → Bytes → State
  | 0, s, _ => s
  | n + 1, s, bs => compressBlocks n (compress s (bs.take 64)) (bs.drop 64)

/-- The message with a one bit, zero bits and its length in bits behind it; as many bytes as whole blocks have. -/
def padded (bs : Bytes) : Bytes :=
  bs ++ 0x80 :: List.replicate ((119 - bs.length % 64) % 64) 0 ++ Bytes.bigEndian 8 (8 * bs.length)

/-- The hash of a message. -/
def hash (bs : Bytes) : Bytes :=
  let p := padded bs
  (compressBlocks (p.length / 64) .initial p).bytes

/-! ## Keyed hashes -/

/-- The key as a block of 64 bytes. -/
def keyBlock (key : Bytes) : Bytes :=
  let key := if 64 < key.length then hash key else key
  key ++ List.replicate (64 - key.length) 0

/-- The keyed hash of a message. -/
def hmac (key message : Bytes) : Bytes :=
  let block := keyBlock key
  hash (block.map (· ^^^ 0x5c) ++ hash (block.map (· ^^^ 0x36) ++ message))

/-- A key of 32 bytes that is derived from a secret for a purpose. -/
def deriveKey (secret purpose : Bytes) : Bytes :=
  hmac (hmac (List.replicate 32 0) secret) (purpose ++ [1])

end DocMesh.Sha256
