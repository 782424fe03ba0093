/-
# IP addresses

Addresses of version 4 and 6 with their usual texts. Of the many texts of an address of version 6 all are
read, and the shortest is written: without leading zeros, and with `::` for the first of the longest runs of
two or more zero groups.
-/
import DocMesh.Bytes
import DocMesh.Decimal.Numeral

namespace DocMesh

/-- The address of a host. -/
inductive IpAddress where
  /-- Four bytes. -/
  | v4 (a b c d : UInt8)
  /-- Eight groups of 16 bits. -/
  | v6 (groups : List UInt16)
  deriving DecidableEq, Inhabited

namespace IpAddress

/-- All addresses of the host. -/
def unspecified : IpAddress := v4 0 0 0 0

/-- The host itself. -/
def localhost : IpAddress := v4 127 0 0 1

/-- All hosts of the local network. -/
def broadcast : IpAddress := v4 255 255 255 255

/-! ## Reading -/

/-- The parts of a text between the separators. -/
def splitOn (separator : Char) : List Char → List (List Char)
  | [] => [[]]
  | c :: cs =>
    if c = separator then [] :: splitOn separator cs
    else
      match splitOn separator cs with
      | part :: parts => (c :: part) :: parts
      | [] => [[c]]

/-- The byte written in decimal digits without a leading zero. -/
def octet? (cs : List Char) : Option UInt8 :=
  if cs.all Char.isDigit && (cs.length = 1 || cs.head? != some '0') then
    (DecimalNumeral.below? 256 cs).map UInt8.ofNat
  else none

/-- The four bytes of an address of version 4. -/
def octets? (cs : List Char) : Option (List UInt8) :=
  match (splitOn '.' cs).mapM octet? with
  | some [a, b, c, d] => some [a, b, c, d]
  | _ => none

/-- The value of a hexadecimal digit. -/
def hexDigit? (c : Char) : Option Nat :=
  if c.toNat < 128 then Bytes.hexValue? (UInt8.ofNat c.toNat) else none

/-- The group written in one to four hexadecimal digits. -/
def group? (cs : List Char) : Option UInt16 :=
  if cs.isEmpty || 4 < cs.length then none
  else (cs.mapM hexDigit?).map fun ds => UInt16.ofNat (ds.foldl (fun n d => 16 * n + d) 0)

/-- The groups written between colons. The last two may be written as an address of version 4. -/
def groups? : List (List Char) → Option (List UInt16)
  | [] => some []
  | [part] =>
    match octets? part with
    | some [a, b, c, d] => some [a.toUInt16 * 256 + b.toUInt16, c.toUInt16 * 256 + d.toUInt16]
    | _ => (group? part).map ([·])
  | part :: parts =>
    match group? part, groups? parts with
    | some g, some gs => some (g :: gs)
    | _, _ => none

/-- The parts of a text before and after the first two colons in a row. -/
def splitGap? : List Char → Option (List Char × List Char)
  | ':' :: ':' :: cs => some ([], cs)
  | c :: cs => (splitGap? cs).map fun (front, back) => (c :: front, back)
  | [] => none

/-- The groups of a text in which none are left out. -/
def allGroups? (cs : List Char) : Option (List UInt16) :=
  if cs.isEmpty then some [] else groups? (splitOn ':' cs)

/-- The address of version 6 with the given text. Only the last groups may be written as an address of version 4. -/
def v6? (cs : List Char) : Option IpAddress :=
  match splitGap? cs with
  | none =>
    match groups? (splitOn ':' cs) with
    | some gs => if gs.length = 8 then some (v6 gs) else none
    | none => none
  | some (front, back) =>
    match (if front.contains '.' then none else allGroups? front), allGroups? back with
    | some fs, some bs =>
      if fs.length + bs.length < 8 then
        some (v6 (fs ++ List.replicate (8 - fs.length - bs.length) 0 ++ bs))
      else none
    | _, _ => none

/-- The address with the given text. -/
def parse? (s : String) : Option IpAddress :=
  match octets? s.toList with
  | some [a, b, c, d] => some (v4 a b c d)
  | _ => v6? s.toList

/-! ## Writing -/

/-- The hexadecimal text of a group. -/
def groupText (g : UInt16) : String :=
  String.ofList ((Nat.toDigits 16 g.toNat))

/-- The groups with colons between them. -/
def groupsText (gs : List UInt16) : String := ":".intercalate (gs.map groupText)

/-- The number of zeros at the front. -/
def leadingZeros (gs : List UInt16) : Nat := (gs.takeWhile (· == 0)).length

/-- Where the first of the longest runs of zeros begins, and how long it is. -/
def longestZeros : List UInt16 → Nat × Nat
  | [] => (0, 0)
  | g :: gs =>
    let (start, length) := longestZeros gs
    let here := leadingZeros (g :: gs)
    if length ≤ here then (0, here) else (start + 1, length)

/-- The text of an address of version 6. -/
def v6Text (gs : List UInt16) : String :=
  match gs with
  | [0, 0, 0, 0, 0, 0xffff, a, b] =>
    "::ffff:" ++ ".".intercalate ([a / 256, a % 256, b / 256, b % 256].map fun n => toString n.toNat)
  | _ =>
    let (start, length) := longestZeros gs
    if length < 2 then groupsText gs
    else groupsText (gs.take start) ++ "::" ++ groupsText (gs.drop (start + length))

/-- The text of an address. -/
def text : IpAddress → String
  | v4 a b c d => ".".intercalate ([a, b, c, d].map fun n => toString n.toNat)
  | v6 gs => v6Text gs

/-- The text of an address with a port. -/
def endpointText (a : IpAddress) (port : UInt16) : String :=
  match a with
  | v4 _ _ _ _ => a.text ++ ":" ++ toString port.toNat
  | v6 _ => "[" ++ a.text ++ "]:" ++ toString port.toNat

end IpAddress

end DocMesh
