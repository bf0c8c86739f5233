/-
Rounding to the nearest double. Main statement: `representable_mul_pow`, what has at most 53 binary
digits before its zeros is a double unless it is out of range.
-/
import SmallJava.Double.Basic

namespace SmallJava

/-! ## The nearest count of units -/

/-- The distance between neighbouring doubles around a count of units. -/
def spacing (units : Nat) : Nat := Nat.pow 2 (units.log2 - 52)

/-- The whole number nearest to `num / den`; a half goes to the even neighbour. -/
def nearestQuotient (num den : Nat) : Nat :=
  let low := num / den
  let rest := 2 * (num % den)
  if rest < den ∨ (rest = den ∧ low % 2 = 0) then low else low + 1

/-- The count of units nearest to `num / den` that has at most 53 binary digits before its zeros. -/
def nearestUnits (num den : Nat) : Nat :=
  let step := spacing (num / den)
  nearestQuotient num (den * step) * step

/-- Below the bound, up to 53 digits followed by zeros are representable. -/
theorem representable_mul_pow {digits zeros : Nat} (hhigh : digits ≤ Nat.pow 2 53)
    (hbound : digits * Nat.pow 2 zeros < unitsBound) : Representable (digits * Nat.pow 2 zeros) := by
  refine ⟨hbound, ?_⟩
  rcases Nat.lt_or_eq_of_le hhigh with hd | rfl
  · by_cases hzero : digits = 0
    · subst hzero
      rw [Nat.zero_mul]
      exact Nat.dvd_zero _
    · have hne : digits * Nat.pow 2 zeros ≠ 0 :=
        Nat.mul_ne_zero hzero (Nat.ne_of_gt (two_pow_pos zeros))
      have hlog : (digits * Nat.pow 2 zeros).log2 < 53 + zeros := by
        rw [Nat.log2_lt hne, Nat.pow_add]
        exact Nat.mul_lt_mul_of_pos_right hd (two_pow_pos zeros)
      exact Nat.dvd_trans (Nat.pow_dvd_pow 2 (by omega)) (Nat.dvd_mul_left _ _)
  · have hpow : Nat.pow 2 53 * Nat.pow 2 zeros = Nat.pow 2 (53 + zeros) :=
      (Nat.pow_add 2 53 zeros).symm
    have hlog : (Nat.pow 2 (53 + zeros)).log2 = 53 + zeros := Nat.log2_two_pow
    rw [hpow, hlog]
    exact Nat.pow_dvd_pow 2 (by omega)

/-! ## Rounding -/

/-- The double nearest to `num / den` units, infinite where that is out of range. -/
def Double.round (negative : Bool) (num den : Nat) : Double :=
  .ofUnits negative (nearestUnits num den)

end SmallJava
