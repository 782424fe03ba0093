/-
# Decimal numbers

A decimal number is a natural number scaled by a power of ten. `Decimal.ofDigits` collects one from the
digits around a point: its number stays below 2 ^ 64, and the digits that do not fit are given up.
-/

namespace DocMesh

/-- The number `digits * 10 ^ scale` in decimal notation. -/
structure Decimal where
  /-- The digits, as a number. -/
  digits : Nat
  /-- The power of ten by which the digits are scaled. -/
  scale : Int
  deriving DecidableEq, Inhabited

namespace Decimal

/-- The number `n` continued with as many of the digits as keep it below 2 ^ 64, and the digits behind these. -/
def extend (n : Nat) : List Nat → Nat × List Nat
  | [] => (n, [])
  | d :: ds => if 10 * n + d < UInt64.size then extend (10 * n + d) ds else (n, d :: ds)

/-- A number below 2 ^ 64 stays below it when it is continued. -/
theorem extend_lt {n : Nat} (h : n < UInt64.size) (ds : List Nat) : (extend n ds).1 < UInt64.size := by
  fun_induction extend n ds with
  | case1 => exact h
  | case2 n d ds hd ih => exact ih hd
  | case3 => exact h

/-- The number with the given digits in front of the point and behind it. Digits in front of the point that do not
fit count as zeros, those behind it do not count. -/
def ofDigits (whole fraction : List Nat) : Decimal :=
  let (n, dropped) := extend 0 whole
  let (n, ignored) := extend n fraction
  ⟨n, (dropped.length + ignored.length : Nat) - (fraction.length : Int)⟩

/-- Collected digits make a number below 2 ^ 64. -/
theorem digits_ofDigits_lt (whole fraction : List Nat) : (ofDigits whole fraction).digits < UInt64.size :=
  extend_lt (extend_lt (by decide) whole) fraction

/-- The number times a power of ten. -/
def shift (d : Decimal) (exponent : Int) : Decimal := ⟨d.digits, d.scale + exponent⟩

end Decimal

end DocMesh
