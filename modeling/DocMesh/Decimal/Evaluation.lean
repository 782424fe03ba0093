/-
# The floating-point value of a decimal number

A decimal number is evaluated in binary arithmetic: its digits are rounded to a floating-point number,
which is then multiplied or divided by the floating-point number nearest to a power of ten. Every step
rounds, so the value may miss the floating-point number nearest to the decimal number. A scale below
-308 takes two divisions, since 10 ^ 308 is the greatest power of ten among the finite numbers, and two
of them leave nothing of any number of 64 bits.
-/
import DocMesh.Decimal.Basic
import DocMesh.Decimal.Binary64

namespace DocMesh.Decimal

/-- The exponent of the greatest power of ten among the finite numbers. -/
def maxScale : Nat := 308

/-- The rank of the number nearest to `10 ^ k`. -/
def powerRank (k : Nat) : Nat := Binary64.roundRank (Nat.pow 10 k) 1

/-- The rank of the number nearest to the digits, as a whole number. -/
def digitsRank (d : Decimal) : Nat := Binary64.roundScaled d.digits 1 0

/-- The rank of the value; none if the scale is too large. It is at least `Binary64.rankLimit` when the value is too
large for a finite number. -/
def evalRank? (d : Decimal) : Option Nat :=
  let k := d.scale.natAbs
  if d.digits = 0 then some 0
  else if 0 ≤ d.scale then
    if k ≤ maxScale then some (Binary64.mulRank d.digitsRank (powerRank k)) else none
  else if k ≤ maxScale then some (Binary64.divRank d.digitsRank (powerRank k))
  else if k ≤ 2 * maxScale then
    some (Binary64.divRank (Binary64.divRank d.digitsRank (powerRank maxScale))
      (powerRank (k - maxScale)))
  else some 0

/-- The value as a floating-point number with the given sign; none if it is too large. -/
def eval? (negative : Bool) (d : Decimal) : Option Binary64 :=
  d.evalRank?.bind (Binary64.ofRank? negative)

end DocMesh.Decimal
