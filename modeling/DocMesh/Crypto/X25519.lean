/-
# X25519

Key agreement on the curve `y² = x³ + 486662 x² + x` over the integers modulo `2²⁵⁵ - 19`. Only the first
coordinates of points take part.
-/
import DocMesh.Bytes

namespace DocMesh.X25519

/-- The number of elements of the field. -/
def prime : Nat := Nat.pow 2 255 - 19

/-- The difference of two elements of the field. -/
def sub (a b : Nat) : Nat := (a + (prime - b)) % prime

/-- The product of two elements of the field. -/
def mul (a b : Nat) : Nat := a * b % prime

/-- The power of an element of the field, by the exponent's `n` lowest bits. -/
def power (a e : Nat) : Nat → Nat
  | 0 => 1
  | n + 1 =>
    let rest := power (mul a a) (e / 2) n
    if e % 2 = 1 then mul a rest else rest

/-- Two points of the ladder, each as a fraction. Their difference is the base point. -/
structure Ladder where
  x₂ : Nat
  z₂ : Nat
  x₃ : Nat
  z₃ : Nat

namespace Ladder

/-- The two points in the other order. -/
def swap (l : Ladder) : Ladder := ⟨l.x₃, l.z₃, l.x₂, l.z₂⟩

/-- Doubles the first point and adds it to the second. `x₁` is the coordinate of the base point. -/
def double (x₁ : Nat) (l : Ladder) : Ladder :=
  let a := (l.x₂ + l.z₂) % prime
  let aa := mul a a
  let b := sub l.x₂ l.z₂
  let bb := mul b b
  let e := sub aa bb
  let c := (l.x₃ + l.z₃) % prime
  let d := sub l.x₃ l.z₃
  let da := mul d a
  let cb := mul c b
  let s := (da + cb) % prime
  let t := sub da cb
  ⟨mul aa bb, mul e (aa + 121665 * e), mul s s, mul x₁ (mul t t)⟩

/-- Goes through the `n` lowest bits of the scalar, from the highest on. -/
def run (x₁ k : Nat) : Nat → Ladder → Ladder
  | 0, l => l
  | n + 1, l =>
    if k.testBit n then run x₁ k n (l.swap.double x₁).swap else run x₁ k n (l.double x₁)

end Ladder

/-- The scalar of a secret: a multiple of 8 from 2^254 to 2^255. -/
def scalar (secret : Bytes) : Nat :=
  let n := Bytes.ofLittleEndian secret % Nat.pow 2 254
  Nat.pow 2 254 + (n - n % 8)

/-- The coordinate that 32 bytes stand for; the highest bit does not count. -/
def coordinate (bs : Bytes) : Nat := Bytes.ofLittleEndian bs % Nat.pow 2 255 % prime

/-- The point of the given coordinate, multiplied by the scalar of the secret. -/
def multiply (secret point : Bytes) : Bytes :=
  let x₁ := coordinate point
  let l := Ladder.run x₁ (scalar secret) 255 ⟨1, 0, x₁, 1⟩
  Bytes.littleEndian 32 (mul l.x₂ (power l.z₂ (prime - 2) 255))

/-- The base point. -/
def basePoint : Bytes := Bytes.littleEndian 32 9

/-- The public key of a secret. -/
def publicKey (secret : Bytes) : Bytes := multiply secret basePoint

end DocMesh.X25519
