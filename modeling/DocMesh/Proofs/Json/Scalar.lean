/-
# Scalars that are equal

Scalars are compared by value, and the only ones that are equal without being the same are the two zeros among the
floating-point numbers: everything else that is said of equal scalars follows from this.

Main statements:

* `Binary64.equals_iff` : equal numbers are the same but for the sign of zero;
* `sameScalar_iff` : so are equal scalars;
* `sameScalar_comm`, `sameScalar_trans` : being equal is symmetric and transitive.
-/
import DocMesh.Json.Basic

namespace DocMesh

/-! ## Numbers -/

namespace Binary64

theorem rankLimit_pos : 0 < rankLimit :=
  Nat.mul_pos (Nat.succ_pos 2046) (Nat.two_pow_pos 52)

/-- Zero with the given sign. -/
def zero (negative : Bool) : Binary64 := { negative, rank := 0, rank_lt := rankLimit_pos }

/-- Numbers are equal if they are the same or the two zeros. -/
theorem equals_iff {x y : Binary64} :
    x.equals y = true ↔ x = y ∨ ∃ negative, x = zero negative ∧ y = zero (!negative) := by
  obtain ⟨a, m, hm⟩ := x
  obtain ⟨b, n, hn⟩ := y
  simp only [equals, zero, Bool.and_eq_true, Bool.or_eq_true, beq_iff_eq, mk.injEq]
  constructor
  · rintro ⟨rfl, hsign | rfl⟩
    · exact Or.inl ⟨hsign, rfl⟩
    · by_cases hsign : a = b
      · exact Or.inl ⟨hsign, rfl⟩
      · exact Or.inr ⟨a, ⟨rfl, rfl⟩, Bool.eq_not_of_ne fun h => hsign h.symm, rfl⟩
  · rintro (⟨hsign, hrank⟩ | ⟨_, ⟨rfl, rfl⟩, rfl, rfl⟩)
    · exact ⟨hrank, Or.inl hsign⟩
    · exact ⟨rfl, Or.inr rfl⟩

end Binary64

/-! ## Scalars -/

namespace Json

variable {u v w : Json}

/-- Is the value neither an array nor an object? -/
def isScalar : Json → Bool
  | array _ | object _ => false
  | null | bool _ | number _ | string _ => true

/-- Zero as a floating-point number with the given sign. -/
def zero (negative : Bool) : Json := number (.real (.zero negative))

/-- Scalars are equal if they are the same or the two zeros. -/
theorem sameScalar_iff :
    v.sameScalar w = true ↔
      v.isScalar = true ∧ (v = w ∨ ∃ negative, v = zero negative ∧ w = zero (!negative)) := by
  cases v with
  | null => cases w <;> simp [sameScalar, isScalar, zero]
  | bool a => cases w <;> simp [sameScalar, isScalar, zero]
  | string s => cases w <;> simp [sameScalar, isScalar, zero]
  | array items => simp [sameScalar, isScalar]
  | object ms => simp [sameScalar, isScalar]
  | number m =>
    cases w with
    | number n =>
      cases m with
      | integer m => cases n <;> simp [sameScalar, isScalar, zero, JsonNumber.equals]
      | real x =>
        cases n with
        | integer n => simp [sameScalar, isScalar, zero, JsonNumber.equals]
        | real y => simpa [sameScalar, isScalar, zero, JsonNumber.equals] using Binary64.equals_iff
    | _ => simp [sameScalar, isScalar, zero]

theorem sameScalar_comm (h : v.sameScalar w = true) : w.sameScalar v = true := by
  rw [sameScalar_iff] at h ⊢
  obtain ⟨hv, rfl | ⟨negative, rfl, rfl⟩⟩ := h
  · exact ⟨hv, Or.inl rfl⟩
  · exact ⟨rfl, Or.inr ⟨!negative, rfl, by rw [Bool.not_not]⟩⟩

theorem sameScalar_trans (h : u.sameScalar v = true) (h' : v.sameScalar w = true) : u.sameScalar w = true := by
  rw [sameScalar_iff] at h h' ⊢
  obtain ⟨hu, rfl | ⟨negative, rfl, rfl⟩⟩ := h
  · exact h'
  · -- the zero that is not the other one is the first again
    obtain ⟨-, rfl | ⟨positive, hpositive, rfl⟩⟩ := h'
    · exact ⟨hu, Or.inr ⟨negative, rfl, rfl⟩⟩
    · injection hpositive with hreal
      injection hreal with hzero
      injection hzero with hsign
      rw [← hsign, Bool.not_not]
      exact ⟨hu, Or.inl rfl⟩

end Json

end DocMesh
