/-
# LZ4 blocks

A block tells how to build a byte string: by sequences that first append some literal bytes and then
repeat a stretch of what has been built so far, and by the literal bytes at the end. A sequence is written as a
token with the two lengths, the literals and the distance of the stretch.
-/
import DocMesh.Bytes

namespace DocMesh.Lz4

/-- A step in building a byte string. -/
structure Sequence where
  /-- Bytes that are appended as they are. -/
  literals : Bytes
  /-- How far back the repeated stretch begins. -/
  distance : Nat
  /-- How many bytes are repeated, at least `minMatch`. -/
  length : Nat
  deriving DecidableEq, Inhabited

/-- The least length of a repeated stretch. -/
def minMatch : Nat := 4

/-- The greatest distance of a repeated stretch. -/
def maxDistance : Nat := 65535

/-- How a byte string is built. -/
structure Block where
  sequences : List Sequence
  /-- The bytes at the end. -/
  literals : Bytes
  deriving DecidableEq, Inhabited

/-! ## What a block builds -/

/-- Repeats `n` bytes that begin `distance` bytes before the end. The stretch may reach into what it adds. -/
def repeatBytes (distance : Nat) : Nat → Array UInt8 → Array UInt8
  | 0, out => out
  | n + 1, out => repeatBytes distance n (out.push (out.getD (out.size - distance) 0))

/-- Appends bytes. -/
def appendBytes (out : Array UInt8) (bs : Bytes) : Array UInt8 := bs.foldl Array.push out

/-- Carries out one step. -/
def Sequence.run (out : Array UInt8) (q : Sequence) : Array UInt8 :=
  repeatBytes q.distance q.length (appendBytes out q.literals)

/-- The byte string that the block builds. -/
def Block.content (b : Block) : Bytes :=
  (appendBytes (b.sequences.foldl Sequence.run #[]) b.literals).toList

/-! ## Writing -/

/-- The part of a length that goes into the token. -/
def nibble (n : Nat) : Nat := min n 15

/-- The part of a length that does not go into the token. -/
def extension (n : Nat) : Bytes :=
  if n < 15 then []
  else List.replicate ((n - 15) / 255) 255 ++ [UInt8.ofNat ((n - 15) % 255)]

/-- The token with the given two parts. -/
def token (high low : Nat) : UInt8 := UInt8.ofNat (16 * nibble high + nibble low)

/-- The written form of a step. -/
def Sequence.encode (q : Sequence) : Bytes :=
  token q.literals.length (q.length - minMatch) :: (extension q.literals.length ++ q.literals ++
    Bytes.littleEndian 2 q.distance ++ extension (q.length - minMatch))

/-- The written form of a block. -/
def Block.encode (b : Block) : Bytes :=
  b.sequences.flatMap Sequence.encode ++
    token b.literals.length 0 :: (extension b.literals.length ++ b.literals)

/-! ## Reading -/

/-- A length that is continued, and the rest. -/
def extended? (n : Nat) : Bytes → Option (Nat × Bytes)
  | [] => none
  | b :: rest => if b = 255 then extended? (n + 255) rest else some (n + b.toNat, rest)

/-- The length with the given part in the token, and the rest. -/
def length? (part : Nat) (s : Bytes) : Option (Nat × Bytes) :=
  if part = 15 then extended? 15 s else some (part, s)

/-- The first `n` bytes and the rest; none if there are fewer. -/
def literals? (n : Nat) (s : Bytes) : Option (Bytes × Bytes) :=
  let front := s.take n
  if front.length = n then some (front, s.drop n) else none

/-- Builds on from `out` by the steps of a written block, to at most `limit` bytes. The block ends where its bytes end behind
literals; what the last token says of a stretch does not count. -/
def build? (limit : Nat) : Nat → Array UInt8 → Bytes → Option (Array UInt8)
  | 0, _, _ => none
  | _ + 1, _, [] => none
  | fuel + 1, out, b :: rest =>
    match length? (b.toNat / 16) rest with
    | none => none
    | some (count, rest) =>
      if limit < out.size + count then none
      else
        match literals? count rest with
        | none => none
        | some (bs, rest) =>
          let out := appendBytes out bs
          match rest with
          | [] => some out
          | [_] => none
          | low :: high :: rest =>
            let distance := low.toNat + 256 * high.toNat
            match length? (b.toNat % 16) rest with
            | none => none
            | some (n, rest) =>
              if distance = 0 ∨ out.size < distance ∨ limit < out.size + (n + minMatch) then none
              else build? limit fuel (repeatBytes distance (n + minMatch) out) rest

/-- The byte string that a written block builds; none if it is longer than `limit` or the block is broken. -/
def decode? (limit : Nat) (s : Bytes) : Option Bytes :=
  (build? limit (s.length + 1) #[] s).map Array.toList

end DocMesh.Lz4
