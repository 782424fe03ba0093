/-
# The shortest decimal notation

A decimal number denotes the floating-point number that is nearest to it. The decimal notation of a
floating-point number has the fewest digits that denote it, and of the notations with that many digits
it is the nearest to the number's value.
-/
import DocMesh.Decimal.Basic
import DocMesh.Decimal.Binary64

namespace DocMesh

namespace Decimal

/-- Does the notation denote the number of the given rank? -/
def denotes (d : Decimal) (rank : Nat) : Bool :=
  Binary64.rankOfDecimal? d.digits d.scale == some rank

/-- The exact value of the number of the given rank. -/
def exact (rank : Nat) : Decimal :=
  let m := Binary64.significand rank
  let e := Binary64.exponent rank
  if 0 ≤ e then ⟨m * Nat.pow 2 e.toNat, 0⟩ else ⟨m * Nat.pow 5 (-e).toNat, e⟩

/-- The quotient and remainder of an exact value by `10 ^ scale`, with the divisor. -/
def divide (d : Decimal) (scale : Int) : Nat × Nat × Nat :=
  let shift := d.scale - scale
  if 0 ≤ shift then (d.digits * Nat.pow 10 shift.toNat, 0, 1)
  else
    let den := Nat.pow 10 (-shift).toNat
    (d.digits / den, d.digits % den, den)

/-- Of the two neighbours of an exact value among the multiples of `10 ^ scale`, the nearer one that denotes the
number of the given rank. -/
def neighbour? (value : Decimal) (rank : Nat) (scale : Int) : Option Decimal :=
  let (q, r, den) := value.divide scale
  let below : Decimal := ⟨q, scale⟩
  let above : Decimal := ⟨q + 1, scale⟩
  let nearer := if 2 * r < den || (2 * r == den && q % 2 == 0) then below else above
  let farther := if nearer = below then above else below
  if nearer.denotes rank then some nearer
  else if farther.denotes rank then some farther
  else none

/-- The notation without zeros at its end. -/
def trim : Nat → Decimal → Decimal
  | 0, d => d
  | n + 1, d => if d.digits % 10 = 0 then trim n ⟨d.digits / 10, d.scale + 1⟩ else d

/-- The shortest notation of the positive number of the given rank: the first of one to seventeen digits that denotes
it. -/
def shortest (rank : Nat) : Decimal :=
  let value := exact rank
  let top := Binary64.digitCount value.digits + value.scale
  let found := (List.range 17).findSome? fun n => value.neighbour? rank (top - (n + 1 : Nat))
  match found with
  | some d => if (trim 18 d).denotes rank then trim 18 d else d
  | none => value

end Decimal

/-! ## Layout -/

/-- How decimal notations are laid out as text. -/
structure DecimalLayout where
  /-- The greatest number of digits before the point in positional notation. -/
  integerDigits : Nat
  /-- The greatest number of zeros between the point and the first digit in positional notation. -/
  leadingZeros : Nat
  /-- What stands before the exponent when it is not negative. -/
  exponentPlus : String
  deriving DecidableEq

namespace Decimal

/-- The text of a decimal notation. Positional notation always has a digit after the point. -/
def text (layout : DecimalLayout) (d : Decimal) : String :=
  let ds := Nat.toDigits 10 d.digits
  let point : Int := ds.length + d.scale
  if 0 ≤ d.scale ∧ point ≤ layout.integerDigits then
    String.ofList (ds ++ List.replicate d.scale.toNat '0') ++ ".0"
  else if 0 < point ∧ point ≤ layout.integerDigits then
    String.ofList (ds.take point.toNat) ++ "." ++ String.ofList (ds.drop point.toNat)
  else if -layout.leadingZeros ≤ point ∧ point ≤ 0 then
    "0." ++ String.ofList (List.replicate (-point).toNat '0' ++ ds)
  else
    let fraction := if ds.length = 1 then "" else "." ++ String.ofList (ds.drop 1)
    let e := point - 1
    String.ofList (ds.take 1) ++ fraction ++ "e" ++
      (if 0 ≤ e then layout.exponentPlus ++ toString e else toString e)

end Decimal

/-- The text of a floating-point number. -/
def Binary64.text (layout : DecimalLayout) (x : Binary64) : String :=
  (if x.negative then "-" else "") ++
    (if x.rank = 0 then "0.0" else (Decimal.shortest x.rank).text layout)

end DocMesh
