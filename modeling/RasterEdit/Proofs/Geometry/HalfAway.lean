import RasterEdit.Proofs.Binary.Exact
import RasterEdit.Proofs.Binary.Nearest

/-!
# Rounding to the nearest pixel

One half is added in binary64, so the sum is rounded before it is cut down to an integer. A number
is still rounded to the nearest integer if it keeps its distance from the half above it. Only below
one half can a binary64 number come too near to it: the predecessor of one half is rounded up.
-/

set_option autoImplicit false

namespace RasterEdit

open Binary

namespace Real64

variable {x y : Real64}

section Bounds

variable {v : ℚ} (rounded : Rounded x v)

include rounded

theorem le_div_of_rounded {m t : Nat} (small : m < 2 ^ 53) (steps : t ≤ 1074)
    (le : v ≤ m / 2 ^ t) : x.magnitude ≤ m / 2 ^ t := by
  rw [div_eq_mul_inv, ← zpow_natCast, ← zpow_neg] at le ⊢
  exact rounded.le_of_le small (by change (-1074 : Int) ≤ _; omega) le

theorem div_le_of_rounded {m t : Nat} (small : m < 2 ^ 53) (steps : t ≤ 1074)
    (le : m / 2 ^ t ≤ v) : m / 2 ^ t ≤ x.magnitude := by
  rw [div_eq_mul_inv, ← zpow_natCast, ← zpow_neg] at le ⊢
  exact rounded.le_of_ge small (by change (-1074 : Int) ≤ _; omega) le

theorem le_natCast_of_rounded {k : Nat} (small : k < 2 ^ 53) (le : v ≤ k) : x.magnitude ≤ k := by
  have bound := le_div_of_rounded rounded small (Nat.zero_le 1074) (by rwa [pow_zero, div_one])
  rwa [pow_zero, div_one] at bound

theorem natCast_le_of_rounded {k : Nat} (small : k < 2 ^ 53) (le : k ≤ v) : k ≤ x.magnitude := by
  have bound := div_le_of_rounded rounded small (Nat.zero_le 1074) (by rwa [pow_zero, div_one])
  rwa [pow_zero, div_one] at bound

end Bounds

theorem rounded_fraction {n d : Nat} (positive : 0 < d) (small : n < 2 ^ 53) :
    Rounded (Real64.ofFraction n d) (n / d) := by
  refine rounded_ofFraction (by decide) (by decide) positive.ne' ?_
  calc (n : ℚ) / d ≤ n := div_le_self (Nat.cast_nonneg n) (by exact_mod_cast positive)
    _ < 2 ^ 53 := by exact_mod_cast small
    _ < Format.binary64.overflow := two_pow_lt_overflow (by decide)

private theorem spacing_room {k : Nat} (small : k < 2 ^ 53) :
    (k + 1) * 2 ^ (52 - k.log2) ≤ 2 ^ 53 := by
  have exponent : k.log2 ≤ 52 := by
    rcases Nat.eq_zero_or_pos k with rfl | positive
    · decide
    · have below := (Nat.log2_lt positive.ne').mpr small
      omega
  calc (k + 1) * 2 ^ (52 - k.log2) ≤ 2 ^ (k.log2 + 1) * 2 ^ (52 - k.log2) :=
        Nat.mul_le_mul_right _ Nat.lt_log2_self
    _ = 2 ^ 53 := by
      rw [← Nat.pow_add]
      congr 1
      omega

private theorem lt_of_room {k t : Nat} (room : (k + 1) * 2 ^ t ≤ 2 ^ 53) :
    k < 2 ^ 53 ∧ t < 54 := by
  have whole : k + 1 ≤ (k + 1) * 2 ^ t := Nat.le_mul_of_pos_right _ (Nat.two_pow_pos t)
  have unit : 2 ^ t ≤ (k + 1) * 2 ^ t := Nat.le_mul_of_pos_left _ (Nat.succ_pos k)
  have power : 2 ^ t < 2 ^ 54 := unit.trans_lt (room.trans_lt (by decide))
  exact ⟨by omega, (Nat.pow_lt_pow_iff_right (by decide)).mp power⟩

/-! ## The sum that is cut down -/

theorem rounded_add_half (finite : x.isFinite = true) :
    Rounded (x.abs + Real64.half) (x.magnitude + 1 / 2) := by
  have below := magnitude_add_half_lt finite
  have sign : x.abs.isNegative = false := by cases x <;> rfl
  rw [← magnitude_abs, ← magnitude_half] at below ⊢
  have absFinite : x.abs.isFinite = true := by rwa [isFinite_abs]
  exact rounded_add (by decide) (by decide) absFinite (by decide) sign (by decide) below

theorem roundHalfAway_eq (finite : x.isFinite = true) :
    roundHalfAway x = .ok (if x.isNegative then -⌊(x.abs + Real64.half).magnitude⌋
      else ⌊(x.abs + Real64.half).magnitude⌋) := by
  have sum := rounded_add_half finite
  have sumFinite := sum.isFinite
  have read : integral Binary.floor? (x.abs + Real64.half) =
      .ok ⌊(x.abs + Real64.half).magnitude⌋ := by
    rw [integral_eq_ok, floor?_of_nonneg sumFinite sum.isNegative]
  rw [roundHalfAway, read, Result.ok_bind]
  cases x with
  | nan => cases finite
  | signed s rank h => cases s <;> rfl

/-- The distance from the half above is at least one unit `1 / 2 ^ t` in which the sum can be
expressed. -/
theorem floor_add_half {k t : Nat} (finite : x.isFinite = true) (room : (k + 1) * 2 ^ t ≤ 2 ^ 53)
    (low : k ≤ x.magnitude + 1 / 2) (high : x.magnitude + 1 / 2 ≤ k + 1 - 1 / 2 ^ t) :
    ⌊(x.abs + Real64.half).magnitude⌋ = k := by
  have sum := rounded_add_half finite
  obtain ⟨whole, steps⟩ := lt_of_room room
  have units : (((k + 1) * 2 ^ t - 1 : Nat) : ℚ) / 2 ^ t = k + 1 - 1 / 2 ^ t := by
    have positive : 1 ≤ (k + 1) * 2 ^ t := Nat.mul_pos (Nat.succ_pos k) (Nat.two_pow_pos t)
    push_cast [positive]
    field_simp
  rw [← units] at high
  have reached := natCast_le_of_rounded sum whole low
  have bound := le_div_of_rounded sum (by omega) (by omega) high
  have unit : (0 : ℚ) < 1 / 2 ^ t := by positivity
  rw [units] at bound
  rw [Int.floor_eq_iff]
  push_cast
  exact ⟨reached, by linarith⟩

/-- From one half on, the spacing of binary64 keeps every number apart from the next half. -/
theorem floor_add_half_of_near {k : Nat} (finite : x.isFinite = true) (positive : 0 < k)
    (small : k < 2 ^ 52) (low : k - 1 / 2 ≤ x.magnitude) (high : x.magnitude < k + 1 / 2) :
    ⌊(x.abs + Real64.half).magnitude⌋ = k := by
  have exponent : k.log2 < 52 := (Nat.log2_lt positive.ne').mpr small
  suffices apart : x.magnitude ≤ k + 1 / 2 - 1 / 2 ^ (52 - k.log2) from
    floor_add_half finite (spacing_room (by omega)) (by linarith) (by linarith)
  generalize steps : 52 - k.log2 = t
  have unit : (0 : ℚ) < 2 ^ t := by positivity
  -- Either `x` is below the power of two that `k` starts from, or a multiple of `1 / 2 ^ t`.
  rcases magnitude_lt_or_multiple (by decide) x (-t) with below | ⟨m, multiple⟩
  · have power : (2 : ℚ) ^ (-(t : Int) + Format.binary64.precision - 1) ≤ k := by
      have place : -(t : Int) + Format.binary64.precision - 1 = k.log2 := by
        change -(t : Int) + 53 - 1 = k.log2
        omega
      rw [place]
      exact_mod_cast Nat.log2_self_le positive.ne'
    have half : 1 / 2 ^ t ≤ (1 / 2 : ℚ) := by
      have double : (2 : ℚ) ^ 1 ≤ 2 ^ t := pow_le_pow_right₀ one_le_two (by omega)
      gcongr
      simpa using double
    linarith
  · obtain ⟨t, rfl⟩ : ∃ r, t = r + 1 := ⟨t - 1, by omega⟩
    rw [multiple, zpow_neg, zpow_natCast, ← div_eq_mul_inv] at high ⊢
    have units : m < (2 * k + 1) * 2 ^ t := by
      rw [div_lt_iff₀ unit, pow_succ] at high
      have unitsRat : (m : ℚ) < (2 * k + 1) * 2 ^ t := by linarith
      exact_mod_cast unitsRat
    have next : (m : ℚ) + 1 ≤ (2 * k + 1) * 2 ^ t := by exact_mod_cast units
    rw [le_sub_iff_add_le, ← add_div, div_le_iff₀ unit, pow_succ]
    linarith

/-- From `2 ^ 52` on, one half beside an integer is half-way to the next one, and the sum is the even
one of the two. -/
theorem floor_add_half_of_wide {k : Nat} (finite : x.isFinite = true) (whole : x.magnitude = k)
    (large : 2 ^ 52 ≤ k) (small : k < 2 ^ 53) :
    ⌊(x.abs + Real64.half).magnitude⌋ = (k + k % 2 : Nat) := by
  have sum := rounded_add_half finite
  rw [whole, ← mul_one ((k : ℚ) + 1 / 2), ← zpow_zero (2 : ℚ)] at sum
  rw [Rounded.of_half_way large small (by decide) sum, zpow_zero, mul_one, Int.floor_natCast]

/-! ## Nearest integers -/

theorem roundHalfAway_whole {k : Nat} (finite : x.isFinite = true) (whole : x.magnitude = k)
    (small : k ≤ 2 ^ 52) : roundHalfAway x = .ok (if x.isNegative then -k else k) := by
  have nearest : ⌊(x.abs + Real64.half).magnitude⌋ = k := by
    rcases small.lt_or_eq with below | rfl
    · exact floor_add_half (t := 1) finite (by omega) (by linarith) (by rw [whole]; linarith)
    · exact floor_add_half_of_wide finite whole (le_refl _) (by decide)
  rw [roundHalfAway_eq finite, nearest]

theorem roundHalfAway_neg {n : Int} (read : roundHalfAway x = .ok n) :
    roundHalfAway (-x) = .ok (-n) := by
  have finite := roundHalfAway_succeeds.mp ⟨n, read⟩
  have sign : (-x).isNegative = !x.isNegative := by
    cases x with
    | nan => cases finite
    | signed s rank h => rfl
  have size : (-x).abs = x.abs := by cases x <;> rfl
  rw [roundHalfAway_eq finite] at read
  cases read
  rw [roundHalfAway_eq ((isFinite_neg x).trans finite), size, sign]
  cases x.isNegative with
  | false => rfl
  | true => simp only [Bool.not_true, Bool.false_eq_true, ↓reduceIte, neg_neg]

theorem floor_add_half_mono (finite : x.isFinite = true) (otherFinite : y.isFinite = true)
    (le : x.magnitude ≤ y.magnitude) :
    ⌊(x.abs + Real64.half).magnitude⌋ ≤ ⌊(y.abs + Real64.half).magnitude⌋ :=
  Int.floor_mono ((rounded_add_half finite).mono (rounded_add_half otherFinite) (by linarith))

theorem roundHalfAway_mono {m n : Int} (le : x.number ≤ y.number)
    (left : roundHalfAway x = .ok m) (right : roundHalfAway y = .ok n) : m ≤ n := by
  have finite := roundHalfAway_succeeds.mp ⟨m, left⟩
  have otherFinite := roundHalfAway_succeeds.mp ⟨n, right⟩
  have nonneg (z : Real64) : 0 ≤ ⌊(z.abs + Real64.half).magnitude⌋ :=
    Int.floor_nonneg.mpr (magnitude_nonneg _)
  rw [roundHalfAway_eq finite] at left
  rw [roundHalfAway_eq otherFinite] at right
  cases left
  cases right
  rw [number_of_leans (Leans.isNegative x), number_of_leans (Leans.isNegative y)] at le
  generalize x.isNegative = s at le ⊢
  generalize y.isNegative = t at le ⊢
  cases s with
  | false =>
    cases t with
    | false => exact floor_add_half_mono finite otherFinite le
    | true =>
      -- Only two zeros are in this order, and the one with the plus sign is rounded to zero.
      simp only [Bool.false_eq_true, ↓reduceIte] at le ⊢
      have zero : x.magnitude = 0 := by linarith [x.magnitude_nonneg, y.magnitude_nonneg]
      have otherZero : y.magnitude = 0 := by linarith [x.magnitude_nonneg, y.magnitude_nonneg]
      have vanishes {z : Real64} (finite : z.isFinite = true) (zero : z.magnitude = 0) :
          ⌊(z.abs + Real64.half).magnitude⌋ = ((0 : Nat) : Int) := by
        apply floor_add_half (t := 1) finite (by decide)
        · rw [zero]
          norm_num
        · rw [zero]
          norm_num
      rw [vanishes finite zero, vanishes otherFinite otherZero]
      rfl
  | true =>
    cases t with
    | false => exact (Int.neg_nonpos_of_nonneg (nonneg x)).trans (nonneg y)
    | true =>
      exact Int.neg_le_neg (floor_add_half_mono otherFinite finite (neg_le_neg_iff.mp le))

section Nonneg

variable (finite : x.isFinite = true) (sign : x.isNegative = false)

include finite sign

theorem roundHalfAway_of_apart {k t : Nat} (room : (k + 1) * 2 ^ t ≤ 2 ^ 53)
    (low : k - 1 / 2 ≤ x.magnitude) (high : x.magnitude ≤ k + 1 / 2 - 1 / 2 ^ t) :
    roundHalfAway x = .ok (k : Int) := by
  rw [roundHalfAway_eq finite, sign, floor_add_half finite room (by linarith) (by linarith)]
  rfl

theorem roundHalfAway_of_near {k : Nat} (positive : 0 < k) (small : k < 2 ^ 52)
    (low : k - 1 / 2 ≤ x.magnitude) (high : x.magnitude < k + 1 / 2) :
    roundHalfAway x = .ok (k : Int) := by
  rw [roundHalfAway_eq finite, sign, floor_add_half_of_near finite positive small low high]
  rfl

theorem exists_roundHalfAway : ∃ k : Nat, roundHalfAway x = .ok (k : Int) := by
  have nonneg : 0 ≤ ⌊(x.abs + Real64.half).magnitude⌋ := Int.floor_nonneg.mpr (magnitude_nonneg _)
  refine ⟨⌊(x.abs + Real64.half).magnitude⌋.toNat, ?_⟩
  rw [roundHalfAway_eq finite, sign, Int.toNat_of_nonneg nonneg]
  rfl

end Nonneg

/-! ## Rounded values -/

/-- A value that keeps a spacing from the half above it still has its nearest integer after it was
rounded itself. -/
theorem roundHalfAway_rounded {v : ℚ} {k t : Nat} (rounded : Rounded x v)
    (room : (k + 1) * 2 ^ (t + 1) ≤ 2 ^ 53) (low : k - 1 / 2 ≤ v)
    (high : v ≤ k + 1 / 2 - 1 / 2 ^ (t + 1)) : roundHalfAway x = .ok (k : Int) := by
  obtain ⟨-, steps⟩ := lt_of_room room
  apply roundHalfAway_of_apart rounded.isFinite rounded.isNegative room
  · rcases Nat.eq_zero_or_pos k with rfl | large
    · have nonneg := x.magnitude_nonneg
      push_cast
      linarith
    · have half : ((2 * k - 1 : Nat) : ℚ) / 2 ^ 1 = k - 1 / 2 := by
        have one : 1 ≤ 2 * k := by omega
        push_cast [one]
        ring
      rw [← half] at low ⊢
      have doubled : (k + 1) * 2 ≤ (k + 1) * 2 ^ (t + 1) :=
        Nat.mul_le_mul_left _ (Nat.le_self_pow (Nat.succ_ne_zero t) 2)
      exact div_le_of_rounded rounded (by omega) (by omega) low
  · have half : (((2 * k + 1) * 2 ^ t - 1 : Nat) : ℚ) / 2 ^ (t + 1) =
        k + 1 / 2 - 1 / 2 ^ (t + 1) := by
      have positive : 1 ≤ (2 * k + 1) * 2 ^ t :=
        Nat.mul_pos (Nat.succ_pos _) (Nat.two_pow_pos t)
      rw [pow_succ]
      push_cast [positive]
      field_simp
    have small : (2 * k + 1) * 2 ^ t ≤ (k + 1) * 2 ^ (t + 1) := by
      rw [pow_succ, ← Nat.mul_assoc, Nat.mul_right_comm]
      exact Nat.mul_le_mul_right _ (by omega)
    rw [← half] at high ⊢
    exact le_div_of_rounded rounded (by omega) (by omega) high

/-- The predecessor of one half and everything above it is rounded up. -/
theorem one_le_roundHalfAway {v : ℚ} (rounded : Rounded x v) (least : 1 / 2 - 1 / 2 ^ 54 ≤ v)
    {m : Int} (read : roundHalfAway x = .ok m) : 1 ≤ m := by
  have below := rounded_fraction (n := 2 ^ 53 - 1) (d := 2 ^ 54) (by decide) (by decide)
  have up : roundHalfAway (Real64.ofFraction (2 ^ 53 - 1 : Nat) (2 ^ 54 : Nat)) = .ok 1 := rfl
  refine roundHalfAway_mono ?_ up read
  rw [below.number_eq, rounded.number_eq]
  exact below.mono rounded (le_trans (by norm_num) least)

/-- Where a quotient with the divisor `b` has the nearest integer `k`, the spacing is finer than
the distance from the half above. -/
private theorem exists_spacing {a b k : Nat} (positive : 0 < b) (numerator : a < 2 ^ 50)
    (divisor : b < 2 ^ 50) (low : 2 * (b * k) ≤ 2 * a + b) :
    ∃ t, (k + 1) * 2 ^ (t + 1) ≤ 2 ^ 53 ∧ b ≤ 2 ^ t := by
  have scaled : b * 2 ^ k.log2 < 2 ^ 51 := by
    rcases Nat.eq_zero_or_pos k with rfl | large
    · have single : Nat.log2 0 = 0 := by decide
      rw [single]
      omega
    · have power := Nat.mul_le_mul_left b (Nat.log2_self_le large.ne')
      have least := Nat.le_mul_of_pos_right b large
      omega
  have exponent : k.log2 < 51 := by
    have power : 2 ^ k.log2 < 2 ^ 51 := (Nat.le_mul_of_pos_left _ positive).trans_lt scaled
    exact (Nat.pow_lt_pow_iff_right (by decide)).mp power
  refine ⟨51 - k.log2, ?_, ?_⟩
  · have room : (k + 1) * 2 ^ (52 - k.log2) ≤ 2 ^ 53 := by
      apply spacing_room
      calc k < 2 ^ (k.log2 + 1) := Nat.lt_log2_self
        _ ≤ 2 ^ 53 := Nat.pow_le_pow_right two_pos (by omega)
    have steps : 51 - k.log2 + 1 = 52 - k.log2 := by omega
    rwa [steps]
  · have powers : 2 ^ 51 = 2 ^ (51 - k.log2) * 2 ^ k.log2 := by
      rw [← Nat.pow_add]
      congr 1
      omega
    rw [powers] at scaled
    exact (Nat.lt_of_mul_lt_mul_right scaled).le

/-- The integer nearest to a quotient, halves rounded up. -/
theorem roundHalfAway_fraction {a b : Nat} (positive : 0 < b) (numerator : a < 2 ^ 50)
    (divisor : b < 2 ^ 50) :
    roundHalfAway (Real64.ofFraction a b) = .ok (((2 * a + b) / (2 * b) : Nat) : Int) := by
  have split := Nat.div_add_mod (2 * a + b) (2 * b)
  have rest := Nat.mod_lt (2 * a + b) (show 0 < 2 * b by omega)
  generalize (2 * a + b) / (2 * b) = k at split ⊢
  rw [Nat.mul_assoc] at split
  obtain ⟨t, room, fine⟩ := exists_spacing (k := k) positive numerator divisor (by omega)
  have divisorRat : (0 : ℚ) < b := by exact_mod_cast positive
  have lowRat : (2 * (b * k) : ℚ) ≤ 2 * a + b := by exact_mod_cast (by omega)
  have highRat : (2 * a + 1 : ℚ) ≤ 2 * (b * k) + b := by exact_mod_cast (by omega)
  apply roundHalfAway_rounded (rounded_fraction positive (by omega)) room
  · rw [le_div_iff₀ divisorRat]
    linarith
  · have unit : (1 : ℚ) / 2 ^ (t + 1) ≤ 1 / (2 * b) := by
      have fineRat : (b : ℚ) ≤ 2 ^ t := by exact_mod_cast fine
      rw [pow_succ, mul_comm _ (2 : ℚ)]
      gcongr
    have quotient : (a : ℚ) / b ≤ k + 1 / 2 - 1 / (2 * b) := by
      have half : 1 / (2 * b) * b = (1 / 2 : ℚ) := by field_simp
      rw [div_le_iff₀ divisorRat, sub_mul, half]
      linarith
    linarith

end Real64

end RasterEdit
