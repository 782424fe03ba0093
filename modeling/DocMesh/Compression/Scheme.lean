/-
# Compression of payloads

Two nodes agree on a way of compression when they meet; each frame then says by a flag whether its payload
is compressed. A payload is compressed only if it is longer than a threshold and becomes shorter.
-/
import DocMesh.Compression.Matching
import DocMesh.ProtocolError

namespace DocMesh

/-- A way of compression. -/
inductive Compression where
  /-- An LZ4 block behind the length of the payload. -/
  | lz4
  deriving DecidableEq, Inhabited

namespace Compression

/-- The ways of compression that a node can read, the preferred one first. -/
def supported : List Compression := [lz4]

/-- The name by which nodes agree. -/
def name : Compression → String
  | lz4 => "lz4"

/-- The way of compression with the given name. -/
def ofName? (s : String) : Option Compression := supported.find? (·.name = s)

/-- The names of the ways of compression that a node can read. -/
def supportedNames : List String := supported.map name

/-- The way of compression to use with a peer that can read the ones with the given names. -/
def negotiate (offered : List String) : Option Compression :=
  supported.find? fun c => offered.contains c.name

/-! ## Flags -/

/-- The flag of a frame with a compressed payload. -/
def flag : Compression → UInt8
  | lz4 => 1

/-- The flag of a frame. -/
def flagOf : Option Compression → UInt8
  | none => 0
  | some c => c.flag

/-- What the flag of a frame says. -/
def ofFlag (n : UInt8) : Except ProtocolError (Option Compression) :=
  if n = 0 then .ok none
  else
    match supported.find? (·.flag = n) with
    | some c => .ok (some c)
    | none => .error (.unknownCompression n)

@[simp] theorem ofFlag_flagOf (c : Option Compression) : ofFlag (flagOf c) = .ok c := by
  rcases c with _ | ⟨⟨⟩⟩ <;> rfl

/-! ## Payloads -/

/-- Payloads of at most this length are usually not compressed. -/
def defaultThreshold : Nat := 1024

/-- The compressed form of a payload. -/
def compress : Compression → Bytes → Bytes
  | lz4, payload => Bytes.littleEndian 4 payload.length ++ (Lz4.Block.ofBytes payload).encode

/-- The compressed form, if the payload is longer than the threshold and becomes shorter. -/
def compressIfSmaller (c : Compression) (threshold : Nat) (payload : Bytes) : Option Bytes :=
  if payload.length ≤ threshold then none
  else
    let compressed := c.compress payload
    if compressed.length < payload.length then some compressed else none

/-- The payload with the given compressed form, of at most `limit` bytes. -/
def decompress (limit : Nat) : Compression → Bytes → Except ProtocolError Bytes
  | lz4, a :: b :: c :: d :: block =>
    let declared := Bytes.ofLittleEndian [a, b, c, d]
    if limit < declared then .error (.frameTooLarge declared limit)
    else
      match Lz4.decode? declared block with
      | some payload => .ok payload
      | none => .error (.decompression "the block is broken")
  | lz4, _ => .error (.decompression "missing size prefix")

end Compression

end DocMesh
