import Mathlib.Analysis.Real.Pi.Bounds
import RasterEdit.Proofs.Binary.Angle
import RasterEdit.Proofs.Binary.Remainder

/-!
# Radians

The factor from degrees to radians is the number next to `π / 180`, so an angle in radians is off by
a share of its magnitude. Whole turns in degrees are therefore not whole turns in radians: taking
them off before the conversion or not makes a difference that grows with the angle.
-/

set_option autoImplicit false

namespace RasterEdit

open Binary

namespace Real64

theorem number_radiansFactor :
    (Binary.pi .binary64 / Binary.ofInt .binary64 180).number = 5030569068109113 / 2 ^ 58 := by
  have significand : Format.binary64.significand 4580687790476533049 = 5030569068109113 := by
    decide +kernel
  have quantum : Format.binary64.quantum 4580687790476533049 = -58 := by decide +kernel
  rw [radiansFactor_eq]
  change Format.binary64.magnitude 4580687790476533049 = _
  rw [Format.magnitude, significand, quantum]
  norm_num

theorem radiansFactor_near : |(5030569068109113 / 2 ^ 58 : ℝ) - Real.pi / 180| ≤ 1 / 2 ^ 61 := by
  have low := Real.pi_gt_d20
  have high := Real.pi_lt_d20
  rw [abs_le]
  constructor <;> norm_num at low high ⊢ <;> linarith

variable {x : Real64} (finite : x.isFinite = true)

include finite

theorem signedRounded_radians :
    SignedRounded x.radians (x.number * (5030569068109113 / 2 ^ 58)) := by
  have factorFinite : (Binary.pi .binary64 / Binary.ofInt .binary64 180).isFinite = true := by
    rw [radiansFactor_eq]
    decide
  have product := signedRounded_mul (by decide) (by decide) finite factorFinite (by
    rw [number_radiansFactor, abs_mul]
    calc |x.number| * |(5030569068109113 / 2 ^ 58 : ℚ)| ≤ |x.number| * 1 := by
          gcongr
          norm_num [abs_of_pos]
      _ = |x.number| := mul_one _
      _ ≤ |x.number| + 1 / 2 := by norm_num
      _ < Format.binary64.overflow := abs_number_lt finite)
  rwa [number_radiansFactor] at product

/-- The product is rounded once, and the factor is not `π / 180` itself. -/
theorem radians_near : |(x.radians.number : ℝ) - x.number * (Real.pi / 180)| ≤
    |(x.number : ℝ)| / 2 ^ 58 + 1 / 2 ^ 64 := by
  have least : Format.binary64.leastQuantum = -1074 := rfl
  have precision : Format.binary64.precision = 53 := rfl
  have rounded : |x.radians.number - x.number * (5030569068109113 / 2 ^ 58)| ≤
      |x.number| * (5030569068109113 / 2 ^ 58) / 2 ^ 53 + 1 / 2 ^ 64 := by
    have error := (signedRounded_radians finite).error_le
    have tiny : (2 : ℚ) ^ (-1074 : Int) ≤ 2 ^ (-64 : Int) :=
      zpow_le_zpow_right₀ one_le_two (by decide)
    have positive : (0 : ℚ) < 2 ^ (-1074 : Int) := by positivity
    rw [abs_mul, abs_of_pos (by norm_num : (0 : ℚ) < 5030569068109113 / 2 ^ 58), least,
      precision] at error
    generalize (2 : ℚ) ^ (-1074 : Int) = spacing at *
    rw [zpow_neg, zpow_ofNat, ← one_div] at tiny
    linarith
  have product : |(x.radians.number : ℝ) - x.number * (5030569068109113 / 2 ^ 58)| ≤
      |(x.number : ℝ)| * (5030569068109113 / 2 ^ 58) / 2 ^ 53 + 1 / 2 ^ 64 := by
    have cast := (Rat.cast_le (K := ℝ)).mpr rounded
    push_cast at cast
    exact cast
  have factor : |(x.number : ℝ) * (5030569068109113 / 2 ^ 58) - x.number * (Real.pi / 180)| ≤
      |(x.number : ℝ)| * (1 / 2 ^ 61) := by
    rw [← mul_sub, abs_mul]
    gcongr
    exact radiansFactor_near
  have magnitude := abs_nonneg (x.number : ℝ)
  calc |(x.radians.number : ℝ) - x.number * (Real.pi / 180)|
      ≤ |(x.radians.number : ℝ) - x.number * (5030569068109113 / 2 ^ 58)| +
          |(x.number : ℝ) * (5030569068109113 / 2 ^ 58) - x.number * (Real.pi / 180)| :=
        abs_sub_le ..
    _ ≤ |(x.number : ℝ)| * (5030569068109113 / 2 ^ 58) / 2 ^ 53 + 1 / 2 ^ 64 +
          |(x.number : ℝ)| * (1 / 2 ^ 61) := add_le_add product factor
    _ ≤ |(x.number : ℝ)| / 2 ^ 58 + 1 / 2 ^ 64 := by linarith

/-- Reduced to one turn before or after the conversion, an angle is the same up to whole turns and
an error that grows with it. -/
theorem radians_wrap_near : ∃ k : Int,
    |((x.wrap 360).radians.number : ℝ) - (x.radians.number - k * (2 * Real.pi))| ≤
      |(x.number : ℝ)| / 2 ^ 58 + 1 / 2 ^ 48 := by
  obtain ⟨reduced, ⟨nonneg, atMost⟩, k, near⟩ :=
    wrap_near finite (show 0 < 360 by decide) (by decide)
  have before := radians_near reduced
  have after := radians_near finite
  have nonnegReal : (0 : ℝ) ≤ (x.wrap 360).number := by exact_mod_cast nonneg
  have atMostReal : ((x.wrap 360).number : ℝ) ≤ 360 := by exact_mod_cast atMost
  have nearReal := (Rat.cast_le (K := ℝ)).mpr near
  push_cast at nearReal
  rw [abs_of_nonneg nonnegReal] at before
  generalize ((x.wrap 360).radians.number : ℝ) = c at *
  generalize (x.radians.number : ℝ) = t at *
  generalize ((x.wrap 360).number : ℝ) = w at *
  generalize (x.number : ℝ) = v at *
  refine ⟨k, ?_⟩
  have pi_lt := Real.pi_lt_four
  have pi_pos := Real.pi_pos
  have turned : |(w - (v - 360 * k)) * (Real.pi / 180)| ≤ 1 / 2 ^ 45 * (4 / 180) := by
    rw [abs_mul, abs_of_pos (by positivity : 0 < Real.pi / 180), abs_sub_comm]
    gcongr
  have split : c - (t - k * (2 * Real.pi)) =
      (c - w * (Real.pi / 180)) + (w - (v - 360 * k)) * (Real.pi / 180) -
        (t - v * (Real.pi / 180)) := by ring
  rw [split]
  calc _ ≤ |c - w * (Real.pi / 180)| + |(w - (v - 360 * k)) * (Real.pi / 180)| +
        |t - v * (Real.pi / 180)| := (abs_sub _ _).trans (add_le_add_left (abs_add_le ..) _)
    _ ≤ (360 / 2 ^ 58 + 1 / 2 ^ 64) + 1 / 2 ^ 45 * (4 / 180) + (|v| / 2 ^ 58 + 1 / 2 ^ 64) := by
        gcongr
        linarith
    _ ≤ |v| / 2 ^ 58 + 1 / 2 ^ 48 := by
        have constants : (360 / 2 ^ 58 + 1 / 2 ^ 64 + 1 / 2 ^ 45 * (4 / 180) + 1 / 2 ^ 64 : ℝ) ≤
            1 / 2 ^ 48 := by norm_num
        linarith

end Real64

end RasterEdit
