import Mathlib.Data.Rat.Floor
import Mathlib.Tactic.Linarith
import Mathlib.Tactic.NormNum
import Mathlib.Tactic.Positivity
import Mathlib.Tactic.Ring
import Mathlib.Algebra.Order.Field.Basic

/-!
Rounding of rationals to a number of decimal digits with ties to even, as Python's `round` does.
-/

namespace Rounding

def halfEven (q : ℚ) : ℤ :=
  let rest := q - q.floor
  if rest < 1 / 2 then
    q.floor
  else if 1 / 2 < rest then
    q.floor + 1
  else if q.floor % 2 = 0 then
    q.floor
  else
    q.floor + 1

def round (q : ℚ) (digits : Nat) : ℚ :=
  halfEven (q * 10 ^ digits) / 10 ^ digits

-- `Decimal.quantize` with `ROUND_HALF_UP`, for what is not negative.
def roundHalfUp (q : ℚ) (digits : Nat) : ℚ :=
  (q * 10 ^ digits + 1 / 2).floor / 10 ^ digits

variable {q : ℚ} {n : ℤ}

theorem halfEven_eq_floor_or (q : ℚ) : halfEven q = q.floor ∨ halfEven q = q.floor + 1 := by
  unfold halfEven
  dsimp only
  split
  . left; rfl
  . split
    . right; rfl
    . split
      . left; rfl
      . right; rfl

theorem le_halfEven (h : (n : ℚ) ≤ q) : n ≤ halfEven q := by
  have hfloor : n ≤ q.floor := Rat.le_floor_iff.mpr h
  rcases halfEven_eq_floor_or q with heq | heq
  . rw [heq]
    exact hfloor
  . rw [heq]
    omega

theorem halfEven_le (h : q ≤ (n : ℚ)) : halfEven q ≤ n := by
  have hle : (q.floor : ℚ) ≤ q := Rat.le_floor_iff.mp (le_refl q.floor)
  have hcast : (q.floor : ℚ) ≤ (n : ℚ) := le_trans hle h
  have hfloor : q.floor ≤ n := by exact_mod_cast hcast
  rcases Int.lt_or_eq_of_le hfloor with hlt | heq
  . rcases halfEven_eq_floor_or q with h' | h' <;> omega
  . -- then `q` is the integer `n` itself and there is nothing to round
    have hq : q - q.floor = 0 := by
      have : (q.floor : ℚ) = (n : ℚ) := by exact_mod_cast heq
      linarith
    have hhalf : halfEven q = q.floor := by
      unfold halfEven
      dsimp only
      rw [hq]
      norm_num
    omega

theorem le_round (digits : Nat) (h : (n : ℚ) ≤ q) : (n : ℚ) ≤ round q digits := by
  have hpos : (0 : ℚ) < 10 ^ digits := by positivity
  have hscaled : ((n * 10 ^ digits : ℤ) : ℚ) ≤ q * 10 ^ digits := by
    push_cast
    exact mul_le_mul_of_nonneg_right h hpos.le
  have hint : n * 10 ^ digits ≤ halfEven (q * 10 ^ digits) := le_halfEven hscaled
  unfold round
  rw [le_div_iff₀ hpos]
  exact_mod_cast hint

theorem round_le (digits : Nat) (h : q ≤ (n : ℚ)) : round q digits ≤ (n : ℚ) := by
  have hpos : (0 : ℚ) < 10 ^ digits := by positivity
  have hscaled : q * 10 ^ digits ≤ ((n * 10 ^ digits : ℤ) : ℚ) := by
    push_cast
    exact mul_le_mul_of_nonneg_right h hpos.le
  have hint : halfEven (q * 10 ^ digits) ≤ n * 10 ^ digits := halfEven_le hscaled
  unfold round
  rw [div_le_iff₀ hpos]
  exact_mod_cast hint

theorem roundHalfUp_nonneg (digits : Nat) (h : 0 ≤ q) : 0 ≤ roundHalfUp q digits := by
  have hpos : (0 : ℚ) < 10 ^ digits := by positivity
  have hscaled : ((0 : ℤ) : ℚ) ≤ q * 10 ^ digits + 1 / 2 := by
    push_cast
    positivity
  have hfloor : 0 ≤ (q * 10 ^ digits + 1 / 2).floor := Rat.le_floor_iff.mpr hscaled
  unfold roundHalfUp
  apply div_nonneg _ hpos.le
  exact_mod_cast hfloor

example : round (254 / 3) 1 = 847 / 10 := by decide +kernel

end Rounding
