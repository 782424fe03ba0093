/-
# Reading CBOR items

`Item.parse?` reads the item at the start of a byte string and returns the rest. It accepts every
well-formed item, however it is written: with longer lengths than needed, and with strings, arrays and maps
whose end is marked by a break. A text must be UTF-8 in each of its segments.
-/
import DocMesh.Cbor.Item

namespace DocMesh.Cbor

/-! ## Heads -/

/-- The first bytes of an item taken apart. -/
structure Head where
  /-- The major type, below 8. -/
  major : Nat
  /-- How the number is written, below 32. -/
  minor : Nat
  /-- The number; none if the end of the item is marked by a break. -/
  argument : Option Nat
  deriving DecidableEq

/-- Does the head mark the end of an item? -/
def Head.isBreak (h : Head) : Bool := h.major == 7 && h.argument.isNone

/-- The first `n` bytes and the rest; none if there are fewer. -/
def split? (n : Nat) (s : Bytes) : Option (Bytes × Bytes) :=
  let front := s.take n
  if front.length = n then some (front, s.drop n) else none

/-- The head at the start of a byte string, and the rest. -/
def head? : Bytes → Option (Head × Bytes)
  | [] => none
  | b :: rest =>
    let major := b.toNat / 32
    let minor := b.toNat % 32
    if minor < 24 then some (⟨major, minor, some minor⟩, rest)
    else if minor < 28 then
      (split? (1 <<< (minor - 24)) rest).map fun (bs, rest) =>
        (⟨major, minor, some (Bytes.ofBigEndian bs)⟩, rest)
    else if minor = 31 then some (⟨major, minor, none⟩, rest)
    else none

/-! ## Strings -/

/-- The segments of a string of the given major type, up to the break that ends it. A segment may itself be segmented;
`level` counts the breaks that are due before the last one. -/
def segments? (major : Nat) : Nat → Nat → Bytes → Option (List Bytes × Bytes)
  | 0, _, _ => none
  | fuel + 1, level, s =>
    match head? s with
    | none => none
    | some (h, rest) =>
      if h.isBreak then
        match level with
        | 0 => some ([], rest)
        | level + 1 => segments? major fuel level rest
      else if h.major = major then
        match h.argument with
        | none => segments? major fuel (level + 1) rest
        | some n =>
          match split? n rest with
          | none => none
          | some (bs, rest) => (segments? major fuel level rest).map fun (bss, rest) => (bs :: bss, rest)
      else none

/-- The string of the given major type that follows its head, by segments. -/
def string? (fuel : Nat) (h : Head) (s : Bytes) : Option (List Bytes × Bytes) :=
  match h.argument with
  | some n => (split? n s).map fun (bs, rest) => ([bs], rest)
  | none => segments? h.major fuel 0 s

/-! ## Items -/

namespace Item

/-- The item without content that has the given head. -/
def ofHead? (h : Head) : Option Item :=
  match h.major, h.argument with
  | 0, some n => some (integer n)
  | 1, some n => some (integer (-1 - n))
  | 7, some n =>
    some (if h.minor ≤ 24 then simple n else float (Bytes.bigEndian (1 <<< (h.minor - 24)) n))
  | _, _ => none

mutual

/-- The item at the start of a byte string, and the rest. -/
def read? : Nat → Bytes → Option (Item × Bytes)
  | 0, _ => none
  | fuel + 1, s =>
    match head? s with
    | none => none
    | some (h, rest) =>
      match h.major with
      | 2 => (string? fuel h rest).map fun (bss, rest) => (bytes h.argument.isNone bss.flatten, rest)
      | 3 =>
        match string? fuel h rest with
        | none => none
        | some (bss, rest) =>
          (bss.mapM Bytes.toString?).map fun ss => (text h.argument.isNone (String.join ss), rest)
      | 4 => (readItems? fuel h.argument rest).map fun (is, rest) => (array is, rest)
      | 5 => (readMembers? fuel h.argument rest).map fun (ms, rest) => (map ms, rest)
      | 6 =>
        match h.argument with
        | none => none
        | some n => (read? fuel rest).map fun (i, rest) => (tag n i, rest)
      | _ => (ofHead? h).map (·, rest)

/-- The given number of items, or all items up to a break. -/
def readItems? : Nat → Option Nat → Bytes → Option (List Item × Bytes)
  | 0, _, _ => none
  | _ + 1, some 0, s => some ([], s)
  | fuel + 1, count, s =>
    match count, s with
    | none, 255 :: rest => some ([], rest)
    | _, _ =>
      match read? fuel s with
      | none => none
      | some (i, rest) =>
        (readItems? fuel (count.map (· - 1)) rest).map fun (is, rest) => (i :: is, rest)

/-- The given number of members, or all members up to a break. -/
def readMembers? : Nat → Option Nat → Bytes → Option (List (Item × Item) × Bytes)
  | 0, _, _ => none
  | _ + 1, some 0, s => some ([], s)
  | fuel + 1, count, s =>
    match count, s with
    | none, 255 :: rest => some ([], rest)
    | _, _ =>
      match read? fuel s with
      | none => none
      | some (name, rest) =>
        match read? fuel rest with
        | none => none
        | some (i, rest) =>
          (readMembers? fuel (count.map (· - 1)) rest).map fun (ms, rest) => ((name, i) :: ms, rest)

end

/-- The item at the start of a byte string, and the rest. -/
def parse? (s : Bytes) : Option (Item × Bytes) := read? (2 * s.length + 2) s

end Item

end DocMesh.Cbor
