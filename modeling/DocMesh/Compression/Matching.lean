/-
# Finding repetitions

Builds a block for a byte string by looking, from place to place, for an earlier place where the same
four bytes stand. A table remembers one place for each hash of the bytes there. The longer nothing is
found, the larger the steps become.
-/
import DocMesh.Compression.Block

namespace DocMesh.Lz4

/-- A byte string in which repetitions are looked for. -/
structure Text where
  bytes : Array UInt8

namespace Text

/-- How many hashes there are. -/
def hashes : Nat := 4096

/-- A repetition begins at least this many bytes before the end. -/
def startMargin : Nat := 12

/-- A repetition ends at least this many bytes before the end. -/
def endMargin : Nat := 6

/-- The number of bytes. -/
def size (w : Text) : Nat := w.bytes.size

/-- The byte at a place. -/
def byte (w : Text) (i : Nat) : UInt8 := w.bytes.getD i 0

/-- The bytes between two places. -/
def slice (w : Text) (start stop : Nat) : Bytes := (w.bytes.extract start stop).toList

/-- The four bytes at a place, the lowest first. -/
def word (w : Text) (i : Nat) : UInt32 :=
  (w.byte i).toUInt32 ||| (w.byte (i + 1)).toUInt32 <<< 8 ||| (w.byte (i + 2)).toUInt32 <<< 16 |||
    (w.byte (i + 3)).toUInt32 <<< 24

/-- The fifth byte at a place with the four before it, shifted to the upper end of a word of eight bytes. -/
def fiveBytes (w : Text) (i : Nat) : UInt64 :=
  (w.word i).toUInt64 <<< 24 ||| (w.byte (i + 4)).toUInt64 <<< 56

/-- The hash of the bytes at a place: of four in a short text, of five in a long one. -/
def hash (w : Text) (i : Nat) : Nat :=
  if w.size < 65535 then ((w.word i * 2654435761) >>> 20).toNat
  else ((w.fiveBytes i * 889523592379) >>> 52).toNat

/-! ## The search -/

/-- Looks for a place from `i` on that repeats an earlier one, and returns both. `tries` grows with each place at which
nothing is found. -/
def search (w : Text) : Nat → Array Nat → Nat → Nat → Array Nat × Option (Nat × Nat)
  | 0, table, _, _ => (table, none)
  | fuel + 1, table, i, tries =>
    if w.size < i + startMargin then (table, none)
    else
      let h := w.hash i
      let j := table.getD h 0
      let table := table.setIfInBounds h i
      if i - j ≤ maxDistance && w.word i == w.word j then (table, some (i, j))
      else search w fuel table (i + tries / 32) (tries + 1)

/-- The first place, not before `start`, from which on the same bytes stand up to `i` as stand up to `j`. -/
def firstCommon (w : Text) (start : Nat) : (i j : Nat) → Nat
  | i + 1, j + 1 => if start ≤ i && w.byte i == w.byte j then firstCommon w start i j else i + 1
  | i, _ => i

/-- The place up to which the same bytes stand from `i` on as stand from `j` on, at most `n` places further. -/
def lastCommon (w : Text) : (n i j : Nat) → Nat
  | 0, i, _ => i
  | n + 1, i, j => if w.byte i == w.byte j then lastCommon w n (i + 1) (j + 1) else i

/-- The steps that build the text from `start` on, and where the last of them ends. Repetitions are looked for from `i`
on. -/
def sequences (w : Text) : Nat → Array Nat → (start i : Nat) → List Sequence × Nat
  | 0, _, start, _ => ([], start)
  | fuel + 1, table, start, i =>
    match w.search w.size table i 32 with
    | (_, none) => ([], start)
    | (table, some (i, j)) =>
      let first := w.firstCommon start i j
      let stop := w.lastCommon (w.size - endMargin - (i + minMatch)) (i + minMatch) (j + minMatch)
      let table := table.setIfInBounds (w.hash (stop - 2)) (stop - 2)
      let (rest, last) := sequences w fuel table stop stop
      (⟨w.slice start first, i - j, stop - first⟩ :: rest, last)

/-- A block that builds the text. -/
def block (w : Text) : Block :=
  if w.size < startMargin + 1 then ⟨[], w.slice 0 w.size⟩
  else
    let (steps, last) := w.sequences w.size (Array.replicate hashes 0) 0 1
    ⟨steps, w.slice last w.size⟩

end Text

/-- A block that builds the given bytes. -/
def Block.ofBytes (bs : Bytes) : Block := Text.block ⟨bs.toArray⟩

end DocMesh.Lz4
