import Mathlib.Algebra.Order.Floor.Semifield
import Mathlib.Analysis.Real.Pi.Bounds
import Mathlib.Analysis.SpecialFunctions.Complex.Arctan
import Mathlib.Analysis.SpecificLimits.Basic
import RasterEdit.Proofs.Binary.Angle

/-!
# The digits of π

The fixed-point π is within a few units of π: every term of the two arctangent series is cut to an
integer, which costs one unit a term, and the guard bits hide that.
-/

set_option autoImplicit false

namespace RasterEdit

namespace FixedPoint

/-- What a series leaves out if its terms are at least halved from there on. -/
theorem abs_sub_sum_le {t : ℕ → ℝ} {s : ℝ} (sums : HasSum t s) (n : ℕ)
    (falls : ∀ i, n ≤ i → |t (i + 1)| ≤ |t i| / 2) :
    |s - ∑ i ∈ Finset.range n, t i| ≤ 2 * |t n| := by
  have term (j : ℕ) : |t (n + j)| ≤ |t n| * (1 / 2) ^ j := by
    induction j with
    | zero => simp
    | succ j ih =>
      calc |t (n + (j + 1))| ≤ |t (n + j)| / 2 := falls (n + j) (by omega)
        _ ≤ |t n| * (1 / 2) ^ j / 2 := by gcongr
        _ = |t n| * (1 / 2) ^ (j + 1) := by ring
  have steps (j : ℕ) : dist (∑ i ∈ Finset.range (n + j), t i)
      (∑ i ∈ Finset.range (n + (j + 1)), t i) ≤ |t n| * (1 / 2) ^ j := by
    rw [← Nat.add_assoc, Finset.sum_range_succ, dist_comm, Real.dist_eq, add_sub_cancel_left]
    exact term j
  have limit : Filter.Tendsto (fun j => ∑ i ∈ Finset.range (n + j), t i) Filter.atTop (nhds s) := by
    have shifted := (Filter.tendsto_add_atTop_iff_nat n).mpr sums.tendsto_sum_nat
    simpa only [Nat.add_comm] using shifted
  have rest := dist_le_of_le_geometric_of_tendsto₀ (1 / 2) (|t n|) (by norm_num) steps limit
  rw [Nat.add_zero, dist_comm, Real.dist_eq] at rest
  calc |s - ∑ i ∈ Finset.range n, t i| ≤ |t n| / (1 - 1 / 2) := rest
    _ = 2 * |t n| := by ring

/-- Integer quotients are cut off by less than one. -/
theorem div_near (n d : ℕ) : |((n / d : ℕ) : ℝ) - n / d| ≤ 1 := by
  rw [← Nat.floor_div_eq_div (K := ℝ) n d, abs_le]
  have low := Nat.floor_le (by positivity : (0 : ℝ) ≤ n / d)
  have high := Nat.lt_floor_add_one ((n : ℝ) / d)
  constructor <;> linarith

theorem div_mul_near (n : ℕ) {d : ℕ} (positive : 0 < d) : |((n / d : ℕ) : ℝ) * d - n| ≤ d := by
  have divisor : (0 : ℝ) < d := by exact_mod_cast positive
  have exact : ((n / d : ℕ) : ℝ) * d - n = ((n / d : ℕ) - (n : ℝ) / d) * d := by
    field_simp
  rw [exact, abs_mul, abs_of_pos divisor]
  exact mul_le_of_le_one_left divisor.le (div_near n d)

/-! ## Arctangents -/

/-- Terms that vanish end the loop, and would not change the sum. -/
theorem arctanSeries_eq (square fuel term odd : ℕ) (positive : Bool) (total : ℤ) :
    arctanSeries square fuel term odd positive total =
      total + (if positive then 1 else -1) *
        ∑ i ∈ Finset.range fuel, (-1) ^ i * ((term / square ^ i / (odd + 2 * i) : ℕ) : ℤ) := by
  induction fuel generalizing term odd positive total with
  | zero => simp [arctanSeries]
  | succ fuel ih =>
    by_cases zero : term = 0
    · simp [arctanSeries, zero]
    · have shifted (i : ℕ) : term / square ^ (i + 1) / (odd + 2 * (i + 1)) =
          term / square / square ^ i / (odd + 2 + 2 * i) := by
        rw [pow_succ', Nat.div_div_eq_div_mul, Nat.div_div_eq_div_mul, Nat.div_div_eq_div_mul]
        ring_nf
      simp only [arctanSeries, zero, ↓reduceIte]
      rw [ih, Finset.sum_range_succ']
      simp only [shifted, pow_succ (-1 : ℤ), mul_neg, mul_one, neg_mul, Finset.sum_neg_distrib]
      cases positive <;> simp <;> ring

section Reciprocal

/-- The terms of the series of an arctangent, neither scaled nor cut. -/
noncomputable def arctanTerm (x i : ℕ) : ℝ :=
  (-1) ^ i * (x : ℝ)⁻¹ ^ (2 * i + 1) / ((2 * i + 1 : ℕ) : ℝ)

variable (x bits : ℕ)

theorem abs_arctanTerm (i : ℕ) :
    |arctanTerm x i| = (x : ℝ)⁻¹ ^ (2 * i + 1) / ((2 * i + 1 : ℕ) : ℝ) := by
  rw [arctanTerm, abs_div, abs_mul, abs_neg_one_pow, one_mul, abs_of_nonneg (by positivity),
    abs_of_nonneg (by positivity)]

/-- Successive quotients are one quotient, so a term is cut only once. -/
theorem arctanTerm_near (i : ℕ) :
    |(-1 : ℝ) ^ i * ((1 <<< bits / x / (x * x) ^ i / (1 + 2 * i) : ℕ) : ℝ) -
      2 ^ bits * arctanTerm x i| ≤ 1 := by
  have quotient : 1 <<< bits / x / (x * x) ^ i / (1 + 2 * i) =
      2 ^ bits / (x ^ (2 * i + 1) * (2 * i + 1)) := by
    rw [Nat.one_shiftLeft, Nat.div_div_eq_div_mul, Nat.div_div_eq_div_mul]
    congr 1
    ring
  have exact : 2 ^ bits * arctanTerm x i =
      (-1) ^ i * (((2 ^ bits : ℕ) : ℝ) / ((x ^ (2 * i + 1) * (2 * i + 1) : ℕ) : ℝ)) := by
    rw [arctanTerm, inv_pow, Nat.cast_mul, ← div_div, Nat.cast_pow, Nat.cast_pow, Nat.cast_ofNat]
    ring
  rw [quotient, exact, ← mul_sub, abs_mul, abs_neg_one_pow, one_mul]
  exact div_near _ _

variable {x} (large : 2 ≤ x)

include large

theorem inv_le_half : (x : ℝ)⁻¹ ≤ 1 / 2 := by
  rw [one_div]
  exact inv_anti₀ two_pos (by exact_mod_cast large)

theorem arctanTerm_falls (i : ℕ) : |arctanTerm x (i + 1)| ≤ |arctanTerm x i| / 2 := by
  have small := inv_le_half large
  have shrinks : (x : ℝ)⁻¹ ^ 2 ≤ 1 / 2 := by
    calc (x : ℝ)⁻¹ ^ 2 ≤ (1 / 2) ^ 2 := by gcongr
      _ ≤ 1 / 2 := by norm_num
  rw [abs_arctanTerm, abs_arctanTerm]
  calc (x : ℝ)⁻¹ ^ (2 * (i + 1) + 1) / ((2 * (i + 1) + 1 : ℕ) : ℝ)
      ≤ (x : ℝ)⁻¹ ^ (2 * (i + 1) + 1) / ((2 * i + 1 : ℕ) : ℝ) := by
        gcongr
        omega
    _ = (x : ℝ)⁻¹ ^ (2 * i + 1) * (x : ℝ)⁻¹ ^ 2 / ((2 * i + 1 : ℕ) : ℝ) := by
        rw [show 2 * (i + 1) + 1 = 2 * i + 1 + 2 by ring, pow_add]
    _ ≤ (x : ℝ)⁻¹ ^ (2 * i + 1) * (1 / 2) / ((2 * i + 1 : ℕ) : ℝ) := by gcongr
    _ = (x : ℝ)⁻¹ ^ (2 * i + 1) / ((2 * i + 1 : ℕ) : ℝ) / 2 := by ring

/-- After as many terms as there are bits, what is left is less than a unit. -/
theorem arctanTerm_last : 2 ^ bits * (2 * |arctanTerm x (bits + 1)|) ≤ 1 := by
  have small := inv_le_half large
  rw [abs_arctanTerm]
  calc 2 ^ bits * (2 * ((x : ℝ)⁻¹ ^ (2 * (bits + 1) + 1) / ((2 * (bits + 1) + 1 : ℕ) : ℝ)))
      ≤ 2 ^ bits * (2 * ((1 / 2) ^ (2 * (bits + 1) + 1) / 1)) := by
        gcongr
        exact_mod_cast Nat.succ_pos _
    _ = 1 / 4 * (2 * (1 / 2)) ^ bits * (1 / 2) ^ bits := by
        rw [mul_pow]
        ring
    _ ≤ 1 / 4 * 1 ^ bits * 1 ^ bits := by gcongr <;> norm_num
    _ ≤ 1 := by norm_num

/-- A unit for each of the terms, and one for all that come after them. -/
theorem arctanReciprocal_near :
    |(arctanReciprocal x bits : ℝ) - 2 ^ bits * Real.arctan (x : ℝ)⁻¹| ≤ bits + 2 := by
  have sums : HasSum (arctanTerm x) (Real.arctan (x : ℝ)⁻¹) := by
    apply Real.hasSum_arctan
    rw [Real.norm_of_nonneg (by positivity)]
    linarith [inv_le_half large]
  have rest := abs_sub_sum_le sums (bits + 1) fun i _ => arctanTerm_falls large i
  have tail : |2 ^ bits * ∑ i ∈ Finset.range (bits + 1), arctanTerm x i -
      2 ^ bits * Real.arctan (x : ℝ)⁻¹| ≤ 1 := by
    rw [← mul_sub, abs_mul, abs_of_pos (by positivity), abs_sub_comm]
    exact (mul_le_mul_of_nonneg_left rest (by positivity)).trans (arctanTerm_last bits large)
  have cut : |(arctanReciprocal x bits : ℝ) -
      2 ^ bits * ∑ i ∈ Finset.range (bits + 1), arctanTerm x i| ≤ bits + 1 := by
    rw [arctanReciprocal, arctanSeries_eq, if_pos rfl, zero_add, one_mul, Finset.mul_sum]
    simp only [Int.cast_sum, Int.cast_mul, Int.cast_pow, Int.cast_neg, Int.cast_one,
      Int.cast_natCast]
    rw [← Finset.sum_sub_distrib]
    calc _ ≤ ∑ _i ∈ Finset.range (bits + 1), (1 : ℝ) :=
          (Finset.abs_sum_le_sum_abs _ _).trans
            (Finset.sum_le_sum fun i _ => arctanTerm_near x bits i)
      _ = bits + 1 := by simp
  calc |(arctanReciprocal x bits : ℝ) - 2 ^ bits * Real.arctan (x : ℝ)⁻¹|
      ≤ _ + _ := abs_sub_le _ (2 ^ bits * ∑ i ∈ Finset.range (bits + 1), arctanTerm x i) _
    _ ≤ (bits + 1) + 1 := add_le_add cut tail
    _ = bits + 2 := by ring

end Reciprocal

/-! ## π -/

/-- The guard bits hold what the series lose, and are cut off with at most one more unit. -/
theorem computePi_near {bits : ℕ} (moderate : bits ≤ 2 ^ 20) :
    |(computePi bits : ℝ) - 2 ^ bits * Real.pi| ≤ 2 := by
  have five := abs_le.mp (arctanReciprocal_near (bits + 32) (x := 5) (by decide))
  have large := abs_le.mp (arctanReciprocal_near (bits + 32) (x := 239) (by decide))
  have machin := Real.four_mul_arctan_inv_5_sub_arctan_inv_239
  have moderateReal : (bits : ℝ) ≤ 2 ^ 20 := by exact_mod_cast moderate
  have scale : (1 : ℝ) ≤ 2 ^ bits := one_le_pow₀ one_le_two
  have pi_gt := Real.pi_gt_three
  generalize hsum : 16 * arctanReciprocal 5 (bits + 32) - 4 * arctanReciprocal 239 (bits + 32) = sum
  have near : |(sum : ℝ) - 2 ^ bits * Real.pi * 2 ^ 32| ≤ 2 ^ 32 := by
    have combined : (2 : ℝ) ^ bits * Real.pi * 2 ^ 32 =
        16 * (2 ^ (bits + 32) * Real.arctan 5⁻¹) - 4 * (2 ^ (bits + 32) * Real.arctan 239⁻¹) := by
      rw [pow_add]
      linear_combination -4 * 2 ^ bits * 2 ^ 32 * machin
    rw [combined, ← hsum, abs_le]
    push_cast at five large ⊢
    constructor <;> linarith
  have nonneg : 0 ≤ sum := by
    have low := (abs_le.mp near).1
    have positive : (0 : ℝ) ≤ sum := by nlinarith
    exact_mod_cast positive
  obtain ⟨n, rfl⟩ := Int.eq_ofNat_of_zero_le nonneg
  have value : computePi bits = n / 2 ^ 32 := by
    simp only [computePi, hsum]
    exact Nat.shiftRight_eq_div_pow n 32
  have cut := div_near n (2 ^ 32)
  have whole : |(n : ℝ) / (2 ^ 32 : ℕ) - 2 ^ bits * Real.pi| ≤ 1 := by
    rw [abs_le] at near ⊢
    push_cast at near ⊢
    constructor <;> linarith
  rw [value]
  calc |((n / 2 ^ 32 : ℕ) : ℝ) - 2 ^ bits * Real.pi|
      ≤ |((n / 2 ^ 32 : ℕ) : ℝ) - n / (2 ^ 32 : ℕ)| +
          |(n : ℝ) / (2 ^ 32 : ℕ) - 2 ^ bits * Real.pi| := abs_sub_le ..
    _ ≤ 1 + 1 := add_le_add cut whole
    _ = 2 := one_add_one_eq_two

theorem pi_near {bits : ℕ} (moderate : bits ≤ 2 ^ 20) :
    |(pi bits : ℝ) - 2 ^ bits * Real.pi| ≤ 3 := by
  unfold pi
  split
  · next stored =>
    have near : |(storedPi : ℝ) - 2 ^ piBits * Real.pi| ≤ 2 := computePi_near (by decide)
    have power : (2 : ℝ) ^ piBits = 2 ^ bits * (2 ^ (piBits - bits) : ℕ) := by
      rw [Nat.cast_pow, Nat.cast_ofNat, ← pow_add, Nat.add_sub_cancel' stored]
    have unit : (1 : ℝ) ≤ (2 ^ (piBits - bits) : ℕ) := by exact_mod_cast Nat.one_le_two_pow
    rw [power] at near
    rw [Nat.shiftRight_eq_div_pow]
    generalize storedPi = digits at *
    have cut := div_near digits (2 ^ (piBits - bits))
    generalize ((2 ^ (piBits - bits) : ℕ) : ℝ) = u at *
    have whole : |(digits : ℝ) / u - 2 ^ bits * Real.pi| ≤ 2 := by
      have exact : (digits : ℝ) / u - 2 ^ bits * Real.pi =
          (digits - 2 ^ bits * u * Real.pi) / u := by
        field_simp
      rw [exact, abs_div, abs_of_pos (by linarith : 0 < u)]
      exact (div_le_self (abs_nonneg _) unit).trans near
    calc |((digits / 2 ^ (piBits - bits) : ℕ) : ℝ) - 2 ^ bits * Real.pi|
        ≤ |((digits / 2 ^ (piBits - bits) : ℕ) : ℝ) - digits / u| +
            |(digits : ℝ) / u - 2 ^ bits * Real.pi| := abs_sub_le ..
      _ ≤ 1 + 2 := add_le_add cut whole
      _ = 3 := by norm_num
  · exact (computePi_near moderate).trans (by norm_num)

end FixedPoint

end RasterEdit
