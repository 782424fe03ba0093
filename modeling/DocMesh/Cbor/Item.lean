/-
# CBOR items

The data items of CBOR and their written form. An item is written with lengths of the fewest bytes, and
lists and maps with their lengths in front. A string may also be written in segments, and the item
remembers that it was: names of fields may not be.
-/
import DocMesh.Bytes

namespace DocMesh.Cbor

/-- A data item. -/
inductive Item where
  /-- An integer from -2^64 to 2^64 - 1. -/
  | integer (n : Int)
  /-- A byte string. -/
  | bytes (segmented : Bool) (bs : Bytes)
  /-- A text. -/
  | text (segmented : Bool) (s : String)
  | array (items : List Item)
  | map (members : List (Item × Item))
  /-- An item with a remark on its meaning. -/
  | tag (n : Nat) (item : Item)
  /-- One of the 256 values without content, such as the truth values. -/
  | simple (n : Nat)
  /-- A floating-point number of 2, 4 or 8 bytes. -/
  | float (bs : Bytes)
  deriving Inhabited

/-! ## Heads -/

/-- The first bytes of an item: its major type, and a number in the fewest bytes. -/
def head (major n : Nat) : Bytes :=
  if n < 24 then [UInt8.ofNat (32 * major + n)]
  else if n < UInt8.size then UInt8.ofNat (32 * major + 24) :: Bytes.bigEndian 1 n
  else if n < UInt16.size then UInt8.ofNat (32 * major + 25) :: Bytes.bigEndian 2 n
  else if n < UInt32.size then UInt8.ofNat (32 * major + 26) :: Bytes.bigEndian 4 n
  else UInt8.ofNat (32 * major + 27) :: Bytes.bigEndian 8 n

/-- The first byte of an item whose end is marked by a break. -/
def openHead (major : Nat) : UInt8 := UInt8.ofNat (32 * major + 31)

/-- Marks the end of segments. -/
def breakByte : UInt8 := 255

/-- A string of the given major type, in one piece or as one segment. -/
def stringBytes (major : Nat) (segmented : Bool) (bs : Bytes) : Bytes :=
  if segmented then openHead major :: (head major bs.length ++ bs ++ [breakByte])
  else head major bs.length ++ bs

namespace Item

/-! ## Simple items -/

/-- A truth value. -/
def ofBool (b : Bool) : Item := simple (if b then 21 else 20)

/-- The absence of a value. -/
def null : Item := simple 22

/-- A text in one piece. -/
def ofString (s : String) : Item := text false s

/-- A byte string in one piece. -/
def ofBytes (bs : Bytes) : Item := bytes false bs

/-- A value that may be absent. -/
def ofOption {α : Type} (write : α → Item) : Option α → Item
  | some a => write a
  | none => null

/-- A record: its fields by name, in the given order. -/
def record (fields : List (String × Item)) : Item :=
  map (fields.map fun (name, item) => (ofString name, item))

/-! ## Written form -/

/-- The bytes of a number with a floating point. -/
def floatBytes (bs : Bytes) : Bytes :=
  (if bs.length = 2 then 249 else if bs.length = 4 then 250 else 251) :: bs

mutual

/-- The written form of an item. -/
def encode : Item → Bytes
  | integer n => if 0 ≤ n then head 0 n.toNat else head 1 (-1 - n).toNat
  | bytes segmented bs => stringBytes 2 segmented bs
  | text segmented s => stringBytes 3 segmented (Bytes.ofString s)
  | array items => head 4 items.length ++ encodeItems items
  | map members => head 5 members.length ++ encodeMembers members
  | tag n item => head 6 n ++ encode item
  | simple n => head 7 n
  | float bs => floatBytes bs

/-- The items of an array, one after the other. -/
def encodeItems : List Item → Bytes
  | [] => []
  | i :: is => encode i ++ encodeItems is

/-- The members of a map, the name before the value. -/
def encodeMembers : List (Item × Item) → Bytes
  | [] => []
  | (name, i) :: ms => encode name ++ (encode i ++ encodeMembers ms)

end

end Item

end DocMesh.Cbor
