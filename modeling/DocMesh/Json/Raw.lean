/-
# The grammar of JSON text

`Raw` is JSON text taken apart, before its numbers and strings have a value: an object may repeat a
name, a number may be too large, a string may hold half a surrogate pair. `Raw.parse?` accepts exactly
one value with blanks around it; the value of its parts is the matter of `DocMesh.Json.Reader`.
-/
import DocMesh.Json.Basic
import DocMesh.Json.Quoted

namespace DocMesh

/-- A number as it is written. -/
structure Numeral where
  /-- Is there a minus sign? -/
  negative : Bool
  /-- The digits in front of the point. -/
  whole : Bytes
  /-- The digits behind the point; none if there is no point. -/
  fraction : Bytes
  /-- The exponent, if there is one. -/
  exponent : Option Int
  deriving DecidableEq, Inhabited

/-- JSON text taken apart. Strings stand as they are written between their quotes. -/
inductive Raw where
  | null
  | bool (b : Bool)
  | number (n : Numeral)
  | string (s : Bytes)
  | array (items : List Raw)
  | object (members : List (Bytes × Raw))
  deriving Inhabited

namespace Raw

/-! ## Tokens -/

/-- Is the byte a blank, a tab or one of the two characters that end lines? -/
def isBlank (b : UInt8) : Bool := b == 32 || b == 9 || b == 10 || b == 13

/-- The text after its leading blanks. -/
def skipBlanks (s : Bytes) : Bytes := s.dropWhile isBlank

/-- Is the byte a decimal digit? -/
def isDigit (b : UInt8) : Bool := 48 ≤ b && b ≤ 57

/-- The value of a decimal digit. -/
def digitValue (b : UInt8) : Nat := b.toNat - 48

/-- No exponent counts as greater than this, or as less than its negative. -/
def exponentLimit : Nat := 2147483647

/-- The exponent with the given digits and sign. -/
def exponentValue (negative : Bool) (ds : Bytes) : Int :=
  let n := ds.foldl (fun n d => min exponentLimit (10 * n + digitValue d)) 0
  if negative then -(n : Int) else n

/-- Splits off the leading digits, of which there must be one. -/
def digits? (s : Bytes) : Option (Bytes × Bytes) :=
  let ds := s.takeWhile isDigit
  if ds.isEmpty then none else some (ds, s.dropWhile isDigit)

/-- The fraction that follows the digits of a number, without its point. -/
def fraction? : Bytes → Option (Bytes × Bytes)
  | 46 :: rest => digits? rest
  | rest => some ([], rest)

/-- The exponent that follows the digits of a number. -/
def exponent? : Bytes → Option (Option Int × Bytes)
  | b :: rest =>
    if b = 101 ∨ b = 69 then
      let (negative, rest) := match rest with
        | 45 :: rest => (true, rest)
        | 43 :: rest => (false, rest)
        | rest => (false, rest)
      (digits? rest).map fun (ds, rest) => (some (exponentValue negative ds), rest)
    else some (none, b :: rest)
  | [] => some (none, [])

/-- The number at the start of the text, after its sign. A zero at the front stands alone. -/
def unsigned? (negative : Bool) (s : Bytes) : Option (Numeral × Bytes) := do
  let (whole, rest) ← digits? s
  if 1 < whole.length && whole.head? == some 48 then none
  else
    let (fraction, rest) ← fraction? rest
    let (exponent, rest) ← exponent? rest
    some (⟨negative, whole, fraction, exponent⟩, rest)

/-- The number at the start of the text. -/
def numeral? : Bytes → Option (Numeral × Bytes)
  | 45 :: rest => unsigned? true rest
  | rest => unsigned? false rest

/-- The text after `word`, with which it has to start. -/
def expect? (word : Bytes) (s : Bytes) : Option Bytes :=
  if word.isPrefixOf s then some (s.drop word.length) else none

/-! ## Values -/

mutual

/-- The value at the start of a text without leading blanks, and the rest of the text. -/
def value? : Nat → Bytes → Option (Raw × Bytes)
  | 0, _ => none
  | _ + 1, [] => none
  | fuel + 1, b :: rest =>
    if b = 110 then (expect? [117, 108, 108] rest).map (null, ·)
    else if b = 116 then (expect? [114, 117, 101] rest).map (bool true, ·)
    else if b = 102 then (expect? [97, 108, 115, 101] rest).map (bool false, ·)
    else if b = 34 then (Quoted.scan? rest).map fun (s, rest) => (string s, rest)
    else if b = 91 then
      match skipBlanks rest with
      | 93 :: rest => some (array [], rest)
      | rest => (items? fuel rest).map fun (items, rest) => (array items, rest)
    else if b = 123 then
      match skipBlanks rest with
      | 125 :: rest => some (object [], rest)
      | rest => (members? fuel rest).map fun (members, rest) => (object members, rest)
    else (numeral? (b :: rest)).map fun (n, rest) => (number n, rest)

/-- The items of an array up to its closing bracket. There is at least one. -/
def items? : Nat → Bytes → Option (List Raw × Bytes)
  | 0, _ => none
  | fuel + 1, s =>
    match value? fuel s with
    | none => none
    | some (v, rest) =>
      match skipBlanks rest with
      | 93 :: rest => some ([v], rest)
      | 44 :: rest => (items? fuel (skipBlanks rest)).map fun (vs, rest) => (v :: vs, rest)
      | _ => none

/-- The members of an object up to its closing brace. There is at least one. -/
def members? : Nat → Bytes → Option (List (Bytes × Raw) × Bytes)
  | 0, _ => none
  | fuel + 1, s =>
    match s with
    | 34 :: rest =>
      match Quoted.scan? rest with
      | none => none
      | some (name, rest) =>
        match skipBlanks rest with
        | 58 :: rest =>
          match value? fuel (skipBlanks rest) with
          | none => none
          | some (v, rest) =>
            match skipBlanks rest with
            | 125 :: rest => some ([(name, v)], rest)
            | 44 :: rest =>
              (members? fuel (skipBlanks rest)).map fun (ms, rest) => ((name, v) :: ms, rest)
            | _ => none
        | _ => none
    | _ => none

end

/-- The one value of a text. -/
def parse? (s : Bytes) : Option Raw :=
  match value? (2 * s.length + 1) (skipBlanks s) with
  | some (v, rest) => if (skipBlanks rest).isEmpty then some v else none
  | none => none

end Raw

end DocMesh
