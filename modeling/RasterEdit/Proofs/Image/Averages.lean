import Mathlib.Tactic.IntervalCases
import RasterEdit.Proofs.Image.Weights

/-!
# Averages of blocks

A sum of bytes is divided by their count through a reciprocal in fixed point. Up to 33156 equal
bytes have themselves as their average; 33157 white ones do not.
-/

set_option autoImplicit false

namespace RasterEdit

open Binary

namespace Resample

/-- The quotient in single precision before it is cut down. -/
theorem rounded_reciprocal {count : Nat} (positive : 0 < count) :
    Rounded (ofFraction .binary32 (1 <<< 32 : Nat) (256 * count : Nat)) (2 ^ 24 / count : ℚ) := by
  have value : ((1 <<< 32 : Nat) : ℚ) / ((256 * count : Nat) : ℚ) = 2 ^ 24 / count := by
    rw [Nat.one_shiftLeft]
    push_cast
    field_simp
    norm_num
  have below : (2 : ℚ) ^ 24 / count < Format.binary32.overflow := by
    have top : (2 : ℚ) ^ (127 : ℤ) ≤ _ := (Format.overflow_bounds .binary32).1
    have atMost : (2 : ℚ) ^ 24 / count ≤ 2 ^ 24 :=
      div_le_self (by norm_num) (by exact_mod_cast positive)
    refine atMost.trans_lt (lt_of_lt_of_le ?_ top)
    norm_num
  rw [← value] at below ⊢
  exact rounded_ofFraction (by decide) (by decide) (by omega) below

theorem reciprocal_eq {count : Nat} (positive : 0 < count) : reciprocal count =
    ⌊(ofFraction .binary32 (1 <<< 32 : Nat) (256 * count : Nat)).number⌋₊ := by
  have rounded := rounded_reciprocal positive
  have nonneg : 0 ≤ (ofFraction .binary32 (1 <<< 32 : Nat) (256 * count : Nat)).number := by
    rw [rounded.number_eq]
    exact magnitude_nonneg _
  have parts : ((256 * count : Nat) : Int) = 256 * (count : Int) := Nat.cast_mul 256 count
  rw [reciprocal, ← parts, truncate?_of_nonneg rounded.isFinite nonneg, Option.getD_some,
    Int.floor_toNat]

/-- The reciprocal is rounded to single precision and cut down, so it falls short of `2 ^ 24` parts
by at most the count, and exceeds them by at most one part. -/
theorem reciprocal_bounds {count : Nat} (positive : 0 < count) (small : count ≤ 2 ^ 24) :
    2 ^ 24 ≤ reciprocal count * count + count ∧ reciprocal count * count ≤ 2 ^ 24 + 1 := by
  have castPos : (0 : ℚ) < count := by exact_mod_cast positive
  have atLeast : (1 : ℚ) ≤ 2 ^ 24 / count := (one_le_div castPos).mpr (by exact_mod_cast small)
  have rounded := rounded_reciprocal positive
  have near := rounded.error
    (le_trans (zpow_le_one_of_nonpos₀ one_le_two (by decide)) atLeast)
  have nonneg := magnitude_nonneg (ofFraction .binary32 (1 <<< 32 : Nat) (256 * count : Nat))
  rw [← rounded.number_eq] at near nonneg
  have floorLe := Nat.floor_le nonneg
  have ltFloor := Nat.lt_floor_add_one
    (ofFraction .binary32 (1 <<< 32 : Nat) (256 * count : Nat)).number
  rw [← reciprocal_eq positive] at floorLe ltFloor
  generalize (ofFraction .binary32 (1 <<< 32 : Nat) (256 * count : Nat)).number = x at *
  obtain ⟨low, high⟩ := abs_le.mp near
  change -((2 : ℚ) ^ 24 / count / 2 ^ 24) ≤ _ at low
  change _ ≤ (2 : ℚ) ^ 24 / count / 2 ^ 24 at high
  have share : (2 : ℚ) ^ 24 / count * count = 2 ^ 24 := div_mul_cancel₀ _ castPos.ne'
  constructor
  · have above : (2 : ℚ) ^ 24 < reciprocal count * count + count + 1 := by nlinarith
    have whole : 2 ^ 24 < reciprocal count * count + count + 1 := by exact_mod_cast above
    omega
  · have under : (reciprocal count * count : ℚ) ≤ 2 ^ 24 + 1 := by nlinarith
    exact_mod_cast under

/-- Half a count is added before the division. That makes up for what the reciprocal lacks, if it
lacks little. -/
theorem average_of_shortfall {k count v : Nat} (byte : v ≤ 255) (high : k * count ≤ 2 ^ 24 + 1)
    (enough : 255 * (2 ^ 24 - k * count) ≤ count / 2 * k) :
    ((v * count + count / 2) * k) >>> 24 = v := by
  have half : 2 * (count / 2 * k) ≤ k * count := by
    calc 2 * (count / 2 * k) = k * (2 * (count / 2)) := by ring
      _ ≤ k * count := Nat.mul_le_mul_left k (Nat.mul_div_le count 2)
  have product : (v * count + count / 2) * k = v * (k * count) + count / 2 * k := by ring
  rw [product, Nat.shiftRight_eq_div_pow]
  generalize k * count = parts at *
  generalize count / 2 * k = added at *
  have short : v * (2 ^ 24 - parts) ≤ added := (Nat.mul_le_mul_right _ byte).trans enough
  have whole : v * 2 ^ 24 ≤ v * parts + v * (2 ^ 24 - parts) := by
    rw [← Nat.mul_add]
    exact Nat.mul_le_mul_left v (by omega)
  have upper : v * parts ≤ v * 2 ^ 24 + v := by
    rw [← Nat.mul_succ]
    exact Nat.mul_le_mul_left v high
  refine Nat.div_eq_of_lt_le (by omega) ?_
  rw [Nat.succ_mul]
  omega

/-- A reciprocal lacks at most the count. From 32833 on that would be too much, but there the
reciprocal is one of five numbers, which lack less. -/
theorem shortfall_le {k count : Nat} (several : 1 < count) (small : count ≤ 33156)
    (low : 2 ^ 24 ≤ k * count + count) (high : k * count ≤ 2 ^ 24 + 1) :
    255 * (2 ^ 24 - k * count) ≤ count / 2 * k := by
  rcases le_or_gt count 32832 with few | many
  · have rounded : k * count ≤ 2 * (count / 2 * k) + k * (count % 2) := by
      have split := Nat.div_add_mod count 2
      nlinarith
    have short : 2 ^ 24 - k * count ≤ count := by omega
    rcases Nat.even_or_odd count with even | odd
    · rw [Nat.even_iff.mp even, Nat.mul_zero] at rounded
      omega
    · have uneven := Nat.odd_iff.mp odd
      rw [uneven, Nat.mul_one] at rounded
      have three : 3 ≤ count := by omega
      have most : k * 3 ≤ k * count := Nat.mul_le_mul_left k three
      rcases le_or_gt count 20000 with fewest | more
      · omega
      · have less : k * 20000 ≤ k * count := Nat.mul_le_mul_left k more.le
        rcases le_or_gt count 32000 with fewer | most
        · omega
        · have least : k * 32000 ≤ k * count := Nat.mul_le_mul_left k most.le
          omega
  · have atMost : k ≤ 510 := by
      by_contra beyond
      have := Nat.mul_le_mul (not_le.mp beyond) many
      omega
    have atLeast : 506 ≤ k := by
      by_contra below
      have := Nat.mul_le_mul (Nat.le_of_lt_succ (not_le.mp below)) small
      omega
    interval_cases k <;> omega

/-- Equal bytes, not too many of them, have themselves as their average. -/
theorem average_equal (v : UInt8) {count : Nat} (positive : 0 < count) (small : count ≤ 33156) :
    average (v.toNat * count) count = v := by
  have byte := v.toNat_lt
  have quotient : ((v.toNat * count + count / 2) * reciprocal count) >>> 24 = v.toNat := by
    rcases Nat.eq_or_lt_of_le positive with single | several
    · subst single
      have whole : reciprocal (0 + 1) = 2 ^ 24 := by decide +kernel
      rw [whole]
      exact average_of_shortfall (by omega) (by omega) (by omega)
    · obtain ⟨low, high⟩ := reciprocal_bounds positive (by omega)
      exact average_of_shortfall (by omega) high (shortfall_le several small low high)
  rw [average, quotient]
  exact UInt8.ofNat_toNat

/-- The least count at which a reciprocal lacks too much. -/
example : average (255 * 33157) 33157 = 254 := by decide +kernel

end Resample

end RasterEdit
