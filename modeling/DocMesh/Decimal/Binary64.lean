/-
# Finite binary floating-point numbers of 64 bits

A finite number is a sign and a rank: the place of its absolute value among the non-negative finite
numbers in ascending order, which is also the number's bit pattern without the sign. Every result is
rounded once: it is the number nearest to the exact value, and of two equally near ones the one with the
even rank.
-/

namespace DocMesh

/-- How many numbers there are from a power of two to the next, which is 2 ^ 52. -/
def Binary64.binade : Nat := 0x10000000000000

/-- The ranks below this one are those of finite numbers. -/
def Binary64.rankLimit : Nat := 2047 * binade

/-- A finite binary floating-point number of 64 bits. -/
structure Binary64 where
  /-- The sign. Zero has one, too. -/
  negative : Bool
  /-- The place of the absolute value among the non-negative numbers, from 0 for zero. -/
  rank : Nat
  /-- Higher ranks are those of infinity and of what is no number. -/
  rank_lt : rank < Binary64.rankLimit := by decide
  deriving DecidableEq

namespace Binary64

instance : Inhabited Binary64 := ⟨{ negative := false, rank := 0 }⟩

/-- Numerical equality: the two zeros are equal. -/
def equals (x y : Binary64) : Bool :=
  x.rank == y.rank && (x.negative == y.negative || x.rank == 0)

/-! ## The value of a rank -/

/-- The number of rank `n` is `significand n * 2 ^ exponent n`. -/
def significand (n : Nat) : Nat :=
  if n < binade then n else binade + n % binade

/-- The number of rank `n` is `significand n * 2 ^ exponent n`. -/
def exponent (n : Nat) : Int :=
  if n < binade then -1074 else (n / binade : Nat) - 1075

/-! ## Rounding -/

/-- The natural number nearest to `num / den`; of two, the even one. -/
def roundQuotient (num den : Nat) : Nat :=
  let q := num / den
  let r := num % den
  if 2 * r < den then q
  else if den < 2 * r then q + 1
  else q + q % 2

/-- The greatest `k` with `2 ^ k ≤ num / den`, for positive numbers. -/
def floorLog2 (num den : Nat) : Int :=
  let k : Int := (Nat.log2 num : Int) - Nat.log2 den
  if 0 ≤ k then (if den * Nat.pow 2 k.toNat ≤ num then k else k - 1)
  else (if den ≤ num * Nat.pow 2 (-k).toNat then k else k - 1)

/-- The rank nearest to the positive quotient `num / den`. It is at least `rankLimit` when the quotient is too
large for a finite number. -/
def roundRank (num den : Nat) : Nat :=
  let q := max (floorLog2 num den - 52) (-1074)
  let significand :=
    if 0 ≤ q then roundQuotient num (den * Nat.pow 2 q.toNat)
    else roundQuotient (num * Nat.pow 2 (-q).toNat) den
  (q + 1074).toNat * binade + significand

/-- The number of decimal digits. -/
def digitCount (n : Nat) : Nat := (Nat.toDigits 10 n).length

/-- The rank nearest to `digits * 10 ^ scale`; none if that is too large for a finite number. Scales far out of
range are told from the number of digits alone. -/
def rankOfDecimal? (digits : Nat) (scale : Int) : Option Nat :=
  if digits = 0 then some 0
  else
    let magnitude := digitCount digits + scale
    if 400 < magnitude then none
    else if magnitude < -400 then some 0
    else
      let rank :=
        if 0 ≤ scale then roundRank (digits * Nat.pow 10 scale.toNat) 1
        else roundRank digits (Nat.pow 10 (-scale).toNat)
      if rank < rankLimit then some rank else none

/-! ## Arithmetic -/

/-- The rank nearest to `num / den * 2 ^ e`, for a positive `den`. -/
def roundScaled (num den : Nat) (e : Int) : Nat :=
  if num = 0 then 0
  else if 0 ≤ e then roundRank (num * Nat.pow 2 e.toNat) den
  else roundRank num (den * Nat.pow 2 (-e).toNat)

/-- The rank nearest to the product of the numbers of two ranks. It is at least `rankLimit` when the product is too
large for a finite number. -/
def mulRank (m n : Nat) : Nat :=
  roundScaled (significand m * significand n) 1 (exponent m + exponent n)

/-- The rank nearest to the quotient of the numbers of two ranks, of which the second is positive. -/
def divRank (m n : Nat) : Nat :=
  roundScaled (significand m) (significand n) (exponent m - exponent n)

/-- The finite number with the given sign and rank. -/
def ofRank? (negative : Bool) (rank : Nat) : Option Binary64 :=
  if h : rank < rankLimit then some ⟨negative, rank, h⟩ else none

end Binary64

end DocMesh
