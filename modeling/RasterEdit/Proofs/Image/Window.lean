import Mathlib.Analysis.Real.Pi.Bounds
import Mathlib.Analysis.SpecialFunctions.Trigonometric.Sinc

/-!
# The windowed sine quotient

The exact values that the finer kernel approximates: at least 0.607 half a width around the middle,
never below -0.1495, and below zero only between one and two widths away.
-/

set_option autoImplicit false

namespace RasterEdit

namespace Resample

open Real (sinc sin cos)

theorem sinc_sub_le {a : ℝ} (nonzero : a ≠ 0) (b : ℝ) :
    |sinc a - sinc b| ≤ 2 * |a - b| / |a| := by
  have quotient : b * sinc b = sin b := by
    by_cases zero : b = 0
    · simp [zero]
    · rw [Real.sinc_of_ne_zero zero, mul_div_cancel₀ _ zero]
  have split : sinc a - sinc b = (sin a - sin b - (a - b) * sinc b) / a := by
    rw [Real.sinc_of_ne_zero nonzero, ← quotient]
    field_simp
    ring
  have product : |(a - b) * sinc b| ≤ |a - b| := by
    rw [abs_mul]
    exact mul_le_of_le_one_right (abs_nonneg _) (Real.abs_sinc_le_one b)
  rw [split, abs_div]
  gcongr
  calc |sin a - sin b - (a - b) * sinc b| ≤ |sin a - sin b| + |(a - b) * sinc b| := abs_sub _ _
    _ ≤ |a - b| + |a - b| := add_le_add (Real.abs_sin_sub_sin_le a b) product
    _ = 2 * |a - b| := by ring

theorem sinc_abs (x : ℝ) : sinc |x| = sinc x := by
  rcases abs_choice x with same | opposite
  · rw [same]
  · rw [opposite, Real.sinc_neg]

theorem one_sub_le_sinc (x : ℝ) : 1 - x ^ 2 / 6 ≤ sinc x := by
  rw [← sinc_abs, ← sq_abs]
  rcases (abs_nonneg x).eq_or_lt with zero | positive
  · rw [← zero, Real.sinc_zero]
    norm_num
  · rw [Real.sinc_of_ne_zero positive.ne', le_div_iff₀ positive]
    linarith [Real.sin_gt_sub_cube positive]

theorem abs_one_sub_sinc_le (x : ℝ) : |1 - sinc x| ≤ x ^ 2 / 6 := by
  rw [abs_of_nonneg (by linarith [Real.sinc_le_one x])]
  linarith [one_sub_le_sinc x]

/-- Near zero the sine quotient is near one, and elsewhere relative distances count. -/
theorem sinc_sub_le_of_near {a b : ℝ} (near : |a - b| ≤ 1 / 2 ^ 40) :
    |sinc a - sinc b| ≤ 1 / 2 ^ 19 := by
  rcases le_or_gt |a| (1 / 2 ^ 10) with tiny | large
  · have other : |b| ≤ 1 / 2 ^ 9 := by
      have split := abs_sub_abs_le_abs_sub b a
      rw [abs_sub_comm] at split
      linarith
    have square : a ^ 2 ≤ (1 / 2 ^ 10) ^ 2 := by
      rw [← sq_abs]
      gcongr
    have otherSquare : b ^ 2 ≤ (1 / 2 ^ 9) ^ 2 := by
      rw [← sq_abs]
      gcongr
    have split : sinc a - sinc b = (1 - sinc b) - (1 - sinc a) := by ring
    rw [split]
    calc |(1 - sinc b) - (1 - sinc a)| ≤ |1 - sinc b| + |1 - sinc a| := abs_sub _ _
      _ ≤ b ^ 2 / 6 + a ^ 2 / 6 := add_le_add (abs_one_sub_sinc_le b) (abs_one_sub_sinc_le a)
      _ ≤ 1 / 2 ^ 19 := by linarith
  · have positive : 0 < |a| := lt_trans (by norm_num) large
    refine (sinc_sub_le (abs_pos.mp positive) b).trans ?_
    rw [div_le_iff₀ positive]
    linarith

theorem sinc_nonneg {x : ℝ} (nonneg : 0 ≤ x) (le : x ≤ Real.pi) : 0 ≤ sinc x := by
  rcases nonneg.eq_or_lt with rfl | positive
  · simp
  · rw [Real.sinc_of_ne_zero positive.ne']
    exact div_nonneg (Real.sin_nonneg_of_nonneg_of_le_pi nonneg le) nonneg

/-- The sine quotient under a window three units wide, without rounding. -/
noncomputable def window (v : ℝ) : ℝ := sinc (v * Real.pi) * sinc (v / 3 * Real.pi)

theorem window_abs (v : ℝ) : window |v| = window v := by
  rcases abs_choice v with same | opposite
  · rw [same]
  · rw [opposite, window, window, neg_mul, neg_div, neg_mul, Real.sinc_neg, Real.sinc_neg]

theorem abs_window_le (v : ℝ) : |window v| ≤ 1 := by
  rw [window, abs_mul]
  exact mul_le_one₀ (Real.abs_sinc_le_one _) (abs_nonneg _) (Real.abs_sinc_le_one _)

/-- A product of numbers near two that are at most one. -/
theorem abs_mul_sub_mul_le {a b s t d e : ℝ} (left : |a - s| ≤ d) (right : |b - t| ≤ e)
    (first : |s| ≤ 1) (second : |t| ≤ 1) : |a * b - s * t| ≤ d * (1 + e) + e := by
  have split : a * b - s * t = (a - s) * b + s * (b - t) := by ring
  have size : |b| ≤ 1 + e := by
    have parts : b = t + (b - t) := by ring
    rw [parts]
    exact (abs_add_le _ _).trans (add_le_add second right)
  rw [split]
  refine (abs_add_le _ _).trans (add_le_add ?_ ?_)
  · rw [abs_mul]
    exact mul_le_mul left size (abs_nonneg b) ((abs_nonneg _).trans left)
  · rw [abs_mul]
    exact (mul_le_of_le_one_left (abs_nonneg _) first).trans right

theorem sinc_third_nonneg {u : ℝ} (nonneg : 0 ≤ u) (le : u ≤ 3) : 0 ≤ sinc (u / 3 * Real.pi) :=
  sinc_nonneg (by positivity) (by nlinarith [Real.pi_pos])

/-- Below its arc the sine lies above the chord. -/
theorem two_mul_le_sin {x : ℝ} (nonneg : 0 ≤ x) (le : x ≤ 1 / 2) : 2 * x ≤ sin (x * Real.pi) := by
  have chord := Real.mul_le_sin (x := x * Real.pi) (by positivity) (by nlinarith [Real.pi_pos])
  have slope : 2 / Real.pi * (x * Real.pi) = 2 * x := by
    field_simp
  rwa [slope] at chord

/-- The middle lobe, half a width around the middle. -/
theorem window_middle {v : ℝ} (near : |v| ≤ 1 / 2 + 1 / 2 ^ 16) : 0.607 ≤ window v := by
  have piLow := Real.pi_gt_d4
  have piHigh := Real.pi_lt_d4
  rw [← window_abs]
  generalize size : |v| = u at *
  have nonneg : 0 ≤ u := size ▸ abs_nonneg v
  have second : 0.9542 ≤ sinc (u / 3 * Real.pi) := by
    refine le_trans ?_ (one_sub_le_sinc _)
    have product : u / 3 * Real.pi ≤ 0.5237 := by nlinarith
    have square : (u / 3 * Real.pi) ^ 2 ≤ 0.5237 ^ 2 := by gcongr
    linarith
  have first : 0.6364 ≤ sinc (u * Real.pi) := by
    rcases nonneg.eq_or_lt with rfl | positive
    · rw [zero_mul, Real.sinc_zero]
      norm_num
    · rw [Real.sinc_of_ne_zero (by positivity), le_div_iff₀ (by positivity)]
      rcases le_total u (1 / 2) with inner | outer
      · nlinarith [two_mul_le_sin nonneg inner]
      · have chord := two_mul_le_sin (x := 1 - u) (by linarith) (by linarith)
        rw [one_sub_mul, Real.sin_pi_sub] at chord
        nlinarith
  calc (0.607 : ℝ) ≤ 0.6364 * 0.9542 := by norm_num
    _ ≤ window u := mul_le_mul first second (by norm_num) (le_trans (by norm_num) first)

/-- Next to three quarters of a turn the sine is as low as a cosine is high. -/
theorem neg_sin_le_of_near {u : ℝ} (low : 1.2 < u) (high : u < 1.427) :
    -sin (u * Real.pi) ≤ 0.4915 * u ^ 2 := by
  have piLow := Real.pi_gt_d4
  have piHigh := Real.pi_lt_d4
  have shift : -sin (u * Real.pi) = cos ((u - 3 / 2) * Real.pi) := by
    have split : (u - 3 / 2) * Real.pi = u * Real.pi - Real.pi - Real.pi / 2 := by ring
    rw [split, Real.cos_sub_pi_div_two, Real.sin_sub_pi]
  have piSquare : 9.869 ≤ Real.pi ^ 2 := by nlinarith
  have square : ((u - 3 / 2) * Real.pi) ^ 2 ≤ 0.9 := by
    have piSquareLe : Real.pi ^ 2 ≤ 9.87 := by nlinarith
    have part : (u - 3 / 2) ^ 2 ≤ 0.09 := by nlinarith
    rw [mul_pow]
    calc (u - 3 / 2) ^ 2 * Real.pi ^ 2 ≤ 0.09 * 9.87 := by gcongr
      _ ≤ 0.9 := by norm_num
  have small : |(u - 3 / 2) * Real.pi| ≤ 1 := by
    rw [← sq_le_one_iff_abs_le_one]
    linarith
  have series := (abs_le.mp (Real.cos_bound small)).2
  have least : 9.869 * (u - 3 / 2) ^ 2 ≤ ((u - 3 / 2) * Real.pi) ^ 2 := by
    rw [mul_pow, mul_comm]
    gcongr
  have fourth : |(u - 3 / 2) * Real.pi| ^ 4 = (((u - 3 / 2) * Real.pi) ^ 2) ^ 2 := by
    rw [← sq_abs ((u - 3 / 2) * Real.pi), ← pow_mul]
  rw [shift]
  rw [fourth] at series
  generalize ((u - 3 / 2) * Real.pi) ^ 2 = z at *
  -- The fourth power is below its chords, on the two sides of 0.36.
  rcases le_total z 0.36 with inner | outer
  · have nonneg : 0 ≤ z := le_trans (by positivity) least
    have chord : z ^ 2 ≤ 0.36 * z := by nlinarith
    nlinarith [sq_nonneg (u - 1.3593)]
  · have chord : z ^ 2 ≤ 1.26 * z - 0.324 := by nlinarith
    nlinarith [sq_nonneg (u - 1.3457)]

/-- Past the middle lobe the sine stays above a parabola that is tight next to its least value. -/
theorem neg_sin_le {u : ℝ} (low : 1 ≤ u) : -sin (u * Real.pi) ≤ 0.4915 * u ^ 2 := by
  have piLow := Real.pi_gt_d4
  have piHigh := Real.pi_lt_d4
  rcases le_or_gt u 1.2 with early | later
  · have shift : -sin (u * Real.pi) = sin (u * Real.pi - Real.pi) := by
      rw [Real.sin_sub_pi]
    rw [shift]
    calc sin (u * Real.pi - Real.pi) ≤ u * Real.pi - Real.pi := Real.sin_le (by nlinarith)
      _ ≤ 0.4915 * u ^ 2 := by nlinarith [sq_nonneg (u - 1.2)]
  · rcases le_or_gt 1.427 u with far | near
    · nlinarith [Real.neg_one_le_sin (u * Real.pi)]
    · exact neg_sin_le_of_near later near

theorem window_side {v : ℝ} (low : 1 ≤ |v|) (high : |v| ≤ 2) : -0.1495 ≤ window v := by
  have piLow := Real.pi_gt_d4
  rw [← window_abs]
  generalize |v| = u at *
  have positive : 0 < u := by linarith
  have second := sinc_third_nonneg positive.le (by linarith)
  have secondLe : sinc (u / 3 * Real.pi) ≤ 3 / (u * Real.pi) := by
    have bound := Real.sinc_le_inv_abs (x := u / 3 * Real.pi) (by positivity)
    refine bound.trans_eq ?_
    rw [abs_of_pos (by positivity), div_mul_eq_mul_div, inv_div]
  have first : -(0.4915 * u / Real.pi) ≤ sinc (u * Real.pi) := by
    rw [Real.sinc_of_ne_zero (by positivity), neg_le, ← neg_div, div_le_div_iff₀ (by positivity)
      (by positivity)]
    nlinarith [neg_sin_le low]
  calc -(0.1495 : ℝ) ≤ -(0.4915 * u / Real.pi) * (3 / (u * Real.pi)) := by
        have product : 0.4915 * u / Real.pi * (3 / (u * Real.pi)) = 1.4745 / Real.pi ^ 2 := by
          field_simp
          norm_num
        rw [neg_mul, product, neg_le_neg_iff, div_le_iff₀ (by positivity)]
        nlinarith
    _ ≤ -(0.4915 * u / Real.pi) * sinc (u / 3 * Real.pi) := by
        rw [neg_mul, neg_mul, neg_le_neg_iff]
        gcongr
    _ ≤ window u := mul_le_mul_of_nonneg_right first second

/-- Elsewhere the window is not negative, and next to a change of sign it is small. -/
theorem window_elsewhere {v : ℝ} (place : |v| ≤ 1 + 1 / 2 ^ 16 ∨ 2 - 1 / 2 ^ 16 ≤ |v| ∧ |v| ≤ 3) :
    -(1 / 2 ^ 16) ≤ window v := by
  rw [← window_abs]
  have nonneg := abs_nonneg v
  generalize |v| = u at *
  have second := sinc_third_nonneg nonneg (by rcases place with near | ⟨-, far⟩ <;> linarith)
  have first : -(1 / 2 ^ 16) ≤ sinc (u * Real.pi) := by
    rcases le_or_gt u 1 with inner | outer
    · exact le_trans (by norm_num) (sinc_nonneg (by positivity) (by nlinarith [Real.pi_pos]))
    · have positive : 0 < u * Real.pi := by positivity
      rw [Real.sinc_of_ne_zero positive.ne', le_div_iff₀ positive]
      rcases place with near | ⟨far, reach⟩
      · have drop : sin (u * Real.pi - Real.pi) ≤ u * Real.pi - Real.pi :=
          Real.sin_le (by nlinarith [Real.pi_pos])
        rw [Real.sin_sub_pi] at drop
        nlinarith [Real.pi_pos]
      · rcases le_or_gt 2 u with beyond | before
        · have side := Real.sin_nonneg_of_nonneg_of_le_pi (x := u * Real.pi - 2 * Real.pi)
            (by nlinarith [Real.pi_pos]) (by nlinarith [Real.pi_pos])
          rw [Real.sin_sub_two_pi] at side
          exact le_trans (by nlinarith) side
        · have rise : sin (2 * Real.pi - u * Real.pi) ≤ 2 * Real.pi - u * Real.pi :=
            Real.sin_le (by nlinarith [Real.pi_pos])
          rw [Real.sin_two_pi_sub] at rise
          nlinarith [Real.pi_pos]
  calc -(1 / 2 ^ 16) ≤ -(1 / 2 ^ 16) * sinc (u / 3 * Real.pi) := by
        rw [neg_mul, neg_le_neg_iff]
        exact mul_le_of_le_one_right (by norm_num) (Real.sinc_le_one _)
    _ ≤ window u := mul_le_mul_of_nonneg_right first second

end Resample

end RasterEdit
