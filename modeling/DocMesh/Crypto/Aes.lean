/-
# AES-256

The block cipher AES with keys of 32 bytes, in the direction of encryption.
-/
import DocMesh.Bytes

namespace DocMesh.Aes

/-! ## Arithmetic on bytes -/

/-- The product with `x` of a polynomial of degree below 8, modulo `x⁸ + x⁴ + x³ + x + 1`. -/
def double (b : UInt8) : UInt8 := (b <<< 1) ^^^ (if 128 ≤ b then 0x1b else 0)

/-- The product of two polynomials, of which the second is given by its `n` lowest coefficients. -/
def times (a b : UInt8) : Nat → UInt8
  | 0 => 0
  | n + 1 => (if b &&& 1 = 1 then a else 0) ^^^ times (double a) (b >>> 1) n

/-- The byte turned to the left. -/
def turn (b : UInt8) (n : UInt8) : UInt8 := b <<< n ||| b >>> (8 - n)

/-- The power of a polynomial. -/
def power (a : UInt8) : Nat → UInt8
  | 0 => 1
  | n + 1 => times a (power a n) 8

/-- What a byte is substituted by: an affine image of its inverse. -/
def substitute (b : UInt8) : UInt8 :=
  let i := power b 254
  i ^^^ turn i 1 ^^^ turn i 2 ^^^ turn i 3 ^^^ turn i 4 ^^^ 0x63

/-- What the bytes are substituted by, in a table. -/
def substitutes : Array UInt8 := Array.ofFn fun i : Fin 256 => substitute (UInt8.ofNat i)

/-- What a byte is substituted by, according to the table. -/
def lookup (b : UInt8) : UInt8 := substitutes.getD b.toNat 0

/-! ## Round keys -/

/-- The words of the extended key after the given ones, the latest of which comes first. Word number `i` is next; `constant` is
the next round constant. -/
def expand : (n i : Nat) → (constant : UInt8) → List Bytes → List Bytes
  | 0, _, _, ws => ws
  | n + 1, i, constant, ws =>
    let last := ws.headD []
    let turned := (last.drop 1 ++ last.take 1).map lookup
    let mixed :=
      if i % 8 = 0 then Bytes.xor turned [constant, 0, 0, 0]
      else if i % 8 = 4 then last.map lookup
      else last
    let constant := if i % 8 = 0 then double constant else constant
    expand n (i + 1) constant (Bytes.xor (ws.getD 7 []) mixed :: ws)

/-- A list of bytes in pieces of `n`. -/
def pieces (n : Nat) : Nat → Bytes → List Bytes
  | 0, _ => []
  | count + 1, bs => bs.take n :: pieces n count (bs.drop n)

/-- The 15 round keys of a key of 32 bytes. -/
def roundKeys (key : Bytes) : List Bytes :=
  pieces 16 15 (expand 52 8 1 (pieces 4 8 key).reverse).reverse.flatten

/-! ## Rounds -/

/-- Turns the rows of the state, which stands column by column. -/
def shiftRows (s : Bytes) : Bytes :=
  [0, 5, 10, 15, 4, 9, 14, 3, 8, 13, 2, 7, 12, 1, 6, 11].map fun i => s.getD i 0

/-- Mixes the bytes of each column. -/
def mixColumns : Bytes → Bytes
  | a :: b :: c :: d :: rest =>
    (double a ^^^ double b ^^^ b ^^^ c ^^^ d) :: (a ^^^ double b ^^^ double c ^^^ c ^^^ d) ::
      (a ^^^ b ^^^ double c ^^^ double d ^^^ d) :: (double a ^^^ a ^^^ b ^^^ c ^^^ double d) ::
      mixColumns rest
  | _ => []

/-- The rounds after the first key has been added. The last one does not mix columns. -/
def rounds (s : Bytes) : List Bytes → Bytes
  | [] => s
  | [k] => Bytes.xor (shiftRows (s.map lookup)) k
  | k :: ks => rounds (Bytes.xor (mixColumns (shiftRows (s.map lookup))) k) ks

/-- Encrypts a block of 16 bytes by the round keys. -/
def encryptBlock (keys : List Bytes) (block : Bytes) : Bytes :=
  match keys with
  | [] => block
  | k :: ks => rounds (Bytes.xor block k) ks

end DocMesh.Aes
