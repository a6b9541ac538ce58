import RasterEdit.Proofs.Binary.Remainder
import RasterEdit.Proofs.Geometry.Lengths

/-!
# Computed values near exact ones

How far a computed number is from the number it stands for. Every operation adds the errors of its
operands and one rounding, whose size follows from how large the result can be.
-/

set_option autoImplicit false

namespace RasterEdit

namespace Real64

open Binary

/-- Counts are rounded in order. -/
theorem number_ofInt_mono {a b : Nat} (le : a ≤ b) (countable : (Real64.ofInt b).isFinite = true) :
    (Real64.ofInt a).isFinite = true ∧ (Real64.ofInt a).number ≤ (Real64.ofInt b).number := by
  have castLe : (a : ℚ) ≤ b := by exact_mod_cast le
  have below : (b : ℚ) < Format.binary64.overflow := by
    simpa using (isFinite_ofInt_iff b).mp countable
  have left := rounded_ofNat (f := .binary64) (by decide) (by decide) (castLe.trans_lt below)
  have right := rounded_ofNat (f := .binary64) (by decide) (by decide) below
  refine ⟨left.isFinite, ?_⟩
  change (Binary.ofInt .binary64 a).number ≤ (Binary.ofInt .binary64 b).number
  rw [left.number_eq, right.number_eq]
  exact left.mono right castLe

/-- Off by a share of the number, and by the least spacing. -/
theorem near_of_signedRounded {x : Real64} {v : ℚ} (signed : SignedRounded x v) :
    |x.number - v| ≤ |v| / 2 ^ 53 + 2 ^ (-1075 : ℤ) := by
  refine signed.error_le.trans (add_le_add le_rfl ?_)
  change (1 : ℚ) / 2 * 2 ^ (-1074 : ℤ) ≤ _
  rw [show (-1074 : ℤ) = -1075 + 1 by rfl, zpow_add_one₀ two_ne_zero]
  linarith

/-- Finite, and at most `e` away from `v`. -/
structure Within (x : Real64) (v e : ℚ) : Prop where
  finite : x.isFinite = true
  near : |x.number - v| ≤ e

theorem lt_overflow_of_lt {v : ℚ} {k : Nat} (below : v * 2 ^ k < 2 ^ 54) :
    v < Format.binary64.overflow := by
  have scale : (1 : ℚ) ≤ 2 ^ k := one_le_pow₀ one_le_two
  have power : (2 : ℚ) ^ 54 < Format.binary64.overflow := two_pow_lt_overflow (by decide)
  rcases le_or_gt v 0 with nonpos | positive
  · linarith [Format.overflow_pos .binary64]
  · nlinarith

/-- A number below `2 ^ (54 - k)` is rounded by at most `1 / 2 ^ k`. -/
theorem within_of_signedRounded {x : Real64} {v : ℚ} (signed : SignedRounded x v) {k : Nat}
    (fine : k ≤ 1075) (below : |v| * 2 ^ k < 2 ^ 54) : Within x v (1 / 2 ^ k) := by
  refine ⟨signed.isFinite, ?_⟩
  have unit : (1 : ℚ) / 2 * 2 ^ (1 - (k : ℤ)) = 1 / 2 ^ k := by
    rw [zpow_sub₀ two_ne_zero, zpow_one, zpow_natCast]
    ring
  rw [← unit]
  refine signed.error_of_lt ?_ ?_
  · change (-1074 : ℤ) ≤ _
    omega
  · have power : (2 : ℚ) ^ (1 - (k : ℤ) + (Format.binary64.precision : ℤ)) = 2 ^ 54 / 2 ^ k := by
      change (2 : ℚ) ^ (1 - (k : ℤ) + 53) = _
      rw [show 1 - (k : ℤ) + 53 = 54 - k by ring, zpow_sub₀ two_ne_zero, zpow_natCast]
      norm_num
    rw [power, lt_div_iff₀ (by positivity)]
    exact below

theorem within_self {x : Real64} (finite : x.isFinite = true) : Within x x.number 0 :=
  ⟨finite, by rw [sub_self, abs_zero]⟩

theorem within_ofInt {n : Int} (small : n.natAbs < 2 ^ 53) : Within (Real64.ofInt n) n 0 :=
  ⟨isFinite_of_small small, by rw [number_ofInt small, sub_self, abs_zero]⟩

theorem within_half : Within Real64.half (1 / 2) 0 :=
  ⟨rfl, by rw [number_half, sub_self, abs_zero]⟩

namespace Within

variable {x y : Real64} {v w d e : ℚ}

theorem mono (left : Within x v d) (le : d ≤ e) : Within x v e := ⟨left.finite, left.near.trans le⟩

theorem abs_le (left : Within x v d) : |x.number| ≤ |v| + d := by
  have split : x.number = v + (x.number - v) := by ring
  rw [split]
  exact (abs_add_le _ _).trans (by linarith [left.near])

/-- Near a number that is itself near another. -/
theorem trans (left : Within x v d) (near : |v - w| ≤ e) : Within x w (d + e) :=
  ⟨left.finite, (abs_sub_le _ v _).trans (add_le_add left.near near)⟩

section Operations

variable (left : Within x v d) (right : Within y w e) {k : Nat} (fine : k ≤ 1075)

include left right fine

theorem add (below : (|v + w| + d + e) * 2 ^ k < 2 ^ 54) :
    Within (x + y) (v + w) (d + e + 1 / 2 ^ k) := by
  have moved : |x.number + y.number - (v + w)| ≤ d + e := by
    rw [add_sub_add_comm]
    exact (abs_add_le _ _).trans (add_le_add left.near right.near)
  have size : |x.number + y.number| ≤ |v + w| + d + e := by
    have split : x.number + y.number = (v + w) + (x.number + y.number - (v + w)) := by ring
    rw [split]
    exact (abs_add_le _ _).trans (by linarith)
  have bound : |x.number + y.number| * 2 ^ k < 2 ^ 54 := lt_of_le_of_lt (by gcongr) below
  have rounded := within_of_signedRounded
    (signedRounded_add (by decide) (by decide) left.finite right.finite (lt_overflow_of_lt bound))
    fine bound
  exact (rounded.trans moved).mono (by linarith)

theorem mul (below : (|v| + d) * (|w| + e) * 2 ^ k < 2 ^ 54) :
    Within (x * y) (v * w) ((|v| + d) * e + |w| * d + 1 / 2 ^ k) := by
  have moved : |x.number * y.number - v * w| ≤ (|v| + d) * e + |w| * d := by
    have split : x.number * y.number - v * w = x.number * (y.number - w) + w * (x.number - v) := by
      ring
    have nonneg := (abs_nonneg x.number).trans left.abs_le
    rw [split]
    refine (abs_add_le _ _).trans ?_
    rw [abs_mul, abs_mul]
    exact add_le_add (mul_le_mul left.abs_le right.near (abs_nonneg _) nonneg)
      (mul_le_mul_of_nonneg_left left.near (abs_nonneg w))
  have size : |x.number * y.number| ≤ (|v| + d) * (|w| + e) := by
    rw [abs_mul]
    exact mul_le_mul left.abs_le right.abs_le (abs_nonneg _) ((abs_nonneg _).trans left.abs_le)
  have bound : |x.number * y.number| * 2 ^ k < 2 ^ 54 := lt_of_le_of_lt (by gcongr) below
  have rounded := within_of_signedRounded
    (signedRounded_mul (by decide) (by decide) left.finite right.finite (lt_overflow_of_lt bound))
    fine bound
  exact (rounded.trans moved).mono (by linarith)

end Operations

theorem neg (left : Within x v d) : Within (-x) (-v) d := by
  refine ⟨(isFinite_neg x).trans left.finite, ?_⟩
  rw [number_neg, neg_sub_neg, abs_sub_comm]
  exact left.near

theorem sub (left : Within x v d) (right : Within y w e) {k : Nat} (fine : k ≤ 1075)
    (below : (|v - w| + d + e) * 2 ^ k < 2 ^ 54) :
    Within (x - y) (v - w) (d + e + 1 / 2 ^ k) := by
  rw [sub_eq_add_neg] at below
  have sum := left.add right.neg fine below
  rw [← sub_eq_add_neg] at sum
  exact sum

section Half

variable (left : Within x v d) {k : Nat} (fine : k ≤ 1075)
  (below : (|v| + 1 / 2 + d) * 2 ^ k < 2 ^ 54)

include left fine below

theorem add_half : Within (x + Real64.half) (v + 1 / 2) (d + 1 / 2 ^ k) := by
  have size : |v + 1 / 2| ≤ |v| + 1 / 2 :=
    (abs_add_le _ _).trans_eq (by rw [abs_of_pos (by norm_num : (0 : ℚ) < 1 / 2)])
  have shifted := left.add within_half fine (by
    rw [add_zero]
    exact lt_of_le_of_lt (by gcongr) below)
  rwa [add_zero] at shifted

theorem sub_half : Within (x - Real64.half) (v - 1 / 2) (d + 1 / 2 ^ k) := by
  have size : |v - 1 / 2| ≤ |v| + 1 / 2 :=
    (abs_sub _ _).trans_eq (by rw [abs_of_pos (by norm_num : (0 : ℚ) < 1 / 2)])
  have shifted := left.sub within_half fine (by
    rw [add_zero]
    exact lt_of_le_of_lt (by gcongr) below)
  rwa [add_zero] at shifted

end Half

end Within

/-- A quotient of numbers, rounded once. -/
theorem within_div {x y : Real64} (left : x.isFinite = true) (right : y.isFinite = true)
    (nonzero : y.number ≠ 0) {k : Nat} (fine : k ≤ 1075)
    (below : |x.number / y.number| * 2 ^ k < 2 ^ 54) :
    Within (x / y) (x.number / y.number) (1 / 2 ^ k) :=
  within_of_signedRounded
    (signedRounded_div (by decide) (by decide) left right nonzero (lt_overflow_of_lt below)) fine
    below

end Real64

end RasterEdit
