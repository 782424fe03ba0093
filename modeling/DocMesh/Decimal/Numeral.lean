/-
# Decimal numerals in addresses and options

An integer is written with the digits 0 to 9, after a sign if there is one. There may be zeros in front,
and nothing else may stand around it.
-/

namespace DocMesh.DecimalNumeral

/-- The value of a decimal digit. -/
def digit? (c : Char) : Option Nat :=
  if '0' ≤ c ∧ c ≤ '9' then some (c.toNat - 48) else none

/-- The number written by the digits that follow those of `n`. -/
def digits? (n : Nat) : List Char → Option Nat
  | [] => some n
  | c :: cs =>
    match digit? c with
    | some d => digits? (10 * n + d) cs
    | none => none

/-- The natural number written by at least one digit. -/
def unsigned? : List Char → Option Nat
  | [] => none
  | cs => digits? 0 cs

/-- The natural number written by digits, with or without a plus sign. -/
def natural? : List Char → Option Nat
  | '+' :: cs => unsigned? cs
  | cs => unsigned? cs

/-- The integer written by digits, with or without a sign. -/
def integer? : List Char → Option Int
  | '-' :: cs => (unsigned? cs).map fun n => -(n : Int)
  | cs => (natural? cs).map fun n => (n : Int)

/-- The natural number below `limit` that the text writes. -/
def below? (limit : Nat) (cs : List Char) : Option Nat :=
  match natural? cs with
  | some n => if n < limit then some n else none
  | none => none

end DocMesh.DecimalNumeral
