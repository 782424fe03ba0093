/-
# Reading records from CBOR items

What stands at a known place is read as the type that belongs there: an integer in a range, a text, a
truth value, a byte string, a list, a value that may be absent, or a record with known fields. Tags in front of
it are passed over. What stands at an unknown place is passed over as a whole.
-/
import DocMesh.Cbor.Parser

namespace DocMesh.Cbor

/-- Arrays and maps nest at most this deep. -/
def nestingLimit : Nat := 256

/-- The name of a field has at most this many bytes. -/
def nameLimit : Nat := 4096

namespace Item

/-- The item without the tags in front of it. -/
def untagged : Item → Item
  | tag _ i => i.untagged
  | i => i

/-! ## Values -/

/-- The number with the given bytes, which are at most 16 after the leading zeros. -/
def magnitude? (bs : Bytes) : Option Int :=
  let bs := bs.dropWhile (· == 0)
  if bs.length ≤ 16 then some (Bytes.ofBigEndian bs) else none

/-- The value of an integer. The tags 2 and 3 make one out of a byte string. -/
def int? : Item → Option Int
  | integer n => some n
  | tag 2 (bytes _ bs) => magnitude? bs
  | tag 3 (bytes _ bs) => (magnitude? bs).map (-1 - ·)
  | tag n i => if n = 2 ∨ n = 3 then none else i.int?
  | _ => none

/-- The value of an integer between the bounds. -/
def intBetween? (low high : Int) (i : Item) : Option Int :=
  i.int?.filter fun n => low ≤ n && n ≤ high

/-- The text. -/
def text? (i : Item) : Option String :=
  match i.untagged with
  | text _ s => some s
  | _ => none

/-- The truth value. -/
def bool? (i : Item) : Option Bool :=
  match i.untagged with
  | simple 20 => some false
  | simple 21 => some true
  | _ => none

/-- The items of a list. A byte string is a list of integers. -/
def list? (i : Item) : Option (List Item) :=
  match i.untagged with
  | array items => some items
  | bytes _ bs => some (bs.map fun b => integer b.toNat)
  | _ => none

/-- The bytes of a byte string, or of a list of integers below 256. -/
def bytes? (i : Item) : Option Bytes :=
  match i.untagged with
  | bytes _ bs => some bs
  | array items => items.mapM fun i => (i.intBetween? 0 255).map fun n => UInt8.ofNat n.toNat
  | _ => none

/-- The value that is read from the item; none if the item says that there is none. A tag says that there is one. -/
def optional? {α : Type} (read : Item → Option α) : Item → Option (Option α)
  | simple 22 | simple 23 => some none
  | i => (read i).map some

/-! ## Records -/

/-- The integer that the tag 2 or 3 makes out of at most 16 bytes in one piece, as they are written. -/
def taggedInteger? (n : Nat) : Item → Option Int
  | bytes false bs =>
    if 16 < bs.length then none
    else if n = 2 then some (Bytes.ofBigEndian bs)
    else if n = 3 then some (-1 - (Bytes.ofBigEndian bs : Int))
    else none
  | _ => none

/-- The least integer that may be passed over, which is -2 ^ 127. -/
def leastInteger : Int := -(Nat.pow 2 127 : Nat)

mutual

/-- May the item be passed over, where arrays, maps and tags may still nest `room` deep? A tag that makes an integer
does not nest, but the integer has to be in range. -/
def skippable (room : Nat) : Item → Bool
  | array items =>
    match room with
    | 0 => false
    | room + 1 => skippableItems room items
  | map members =>
    match room with
    | 0 => false
    | room + 1 => skippableMembers room members
  | tag n i =>
    match taggedInteger? n i with
    | some v => leastInteger ≤ v
    | none =>
      match room with
      | 0 => false
      | room + 1 => skippable room i
  | simple n => 20 ≤ n && n ≤ 23
  | _ => true

/-- May all items be passed over? -/
def skippableItems (room : Nat) : List Item → Bool
  | [] => true
  | i :: is => skippable room i && skippableItems room is

/-- May all members be passed over? -/
def skippableMembers (room : Nat) : List (Item × Item) → Bool
  | [] => true
  | (name, i) :: ms => skippable room name && skippable room i && skippableMembers room ms

end

/-- The name of a field: a text or a byte string in one piece. -/
def name? (i : Item) : Option Bytes :=
  match i.untagged with
  | text false s => if s.utf8ByteSize ≤ nameLimit then some (Bytes.ofString s) else none
  | bytes false bs => if bs.length ≤ nameLimit then some bs else none
  | _ => none

/-- The members of a map with their names. -/
def namedMembers? (members : List (Item × Item)) : Option (List (Bytes × Item)) :=
  members.mapM fun (name, i) => name.name?.map (·, i)

/-- The only member of the given name; `none` inside if there is no such member, `none` outside if there are several. -/
def field? (name : Bytes) (members : List (Bytes × Item)) : Option (Option Item) :=
  match members.filter (·.1 == name) with
  | [] => some none
  | [(_, i)] => some (some i)
  | _ => none

/-- The fields of a record, in the order of `names`. A record is a map, which is the `level`-th of those that are nested
into each other. -/
def fields? (level : Nat) (names : List String) (i : Item) : Option (List (Option Item)) :=
  match i.untagged with
  | map members =>
    match namedMembers? members with
    | none => none
    | some members =>
      let names := names.map Bytes.ofString
      if members.all fun (name, i) => names.contains name || i.skippable (nestingLimit - level) then
        names.mapM (field? · members)
      else none
  | _ => none

end Item

end DocMesh.Cbor
