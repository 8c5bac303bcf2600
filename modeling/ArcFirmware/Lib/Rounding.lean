import Mathlib.Algebra.Order.Round
import Mathlib.Data.Rat.Floor

/-!
# Rounding a quotient to the nearest integer

`round` of a rational rounds a tie up.  For a fraction with an even denominator
it is computed from the integer quotient and remainder alone: the quotient, one
more where the remainder is at least half the denominator.
-/

set_option autoImplicit false

namespace ArcFirmware.Rounding

variable {half : Nat}

theorem round_div_floor (numer : Nat) (positive : 0 < half) :
    round ((numer : ℚ) / (2 * half)) = (((numer + half) / (2 * half) : Nat) : Int) := by
  have nonzero : (half : ℚ) ≠ 0 := Nat.cast_ne_zero.mpr positive.ne'
  have shifted : (numer : ℚ) / (2 * half) + 1 / 2 =
      ((numer + half : Nat) : ℚ) / ((2 * half : Nat) : ℚ) := by
    push_cast
    field_simp
  rw [round_eq, shifted, Rat.floor_natCast_div_natCast]
  rfl

theorem add_half_div (numer : Nat) (positive : 0 < half) :
    (numer + half) / (2 * half) =
      numer / (2 * half) + if half ≤ numer % (2 * half) then 1 else 0 := by
  have split := Nat.div_add_mod numer (2 * half)
  have small := Nat.mod_lt numer (show 0 < 2 * half by omega)
  have regroup : numer + half = (numer % (2 * half) + half) + 2 * half * (numer / (2 * half)) := by
    omega
  rw [regroup, Nat.add_mul_div_left _ _ (show 0 < 2 * half by omega), Nat.add_comm]
  congr 1
  by_cases upper : half ≤ numer % (2 * half)
  · rw [if_pos upper]
    exact Nat.div_eq_of_lt_le (by omega) (by omega)
  · rw [if_neg upper]
    exact Nat.div_eq_of_lt (by omega)

/-- The nearest integer from the quotient and the remainder. -/
theorem round_div (numer : Nat) (positive : 0 < half) :
    round ((numer : ℚ) / (2 * half)) =
      ((numer / (2 * half) + if half ≤ numer % (2 * half) then 1 else 0 : Nat) : Int) := by
  rw [round_div_floor numer positive, add_half_div numer positive]

theorem round_div_pos_iff (numer : Nat) (positive : 0 < half) :
    0 < round ((numer : ℚ) / (2 * half)) ↔ half ≤ numer := by
  rw [round_div_floor numer positive, Int.natCast_pos, Nat.div_pos_iff]
  omega

end ArcFirmware.Rounding
