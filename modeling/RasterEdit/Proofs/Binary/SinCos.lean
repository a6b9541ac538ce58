import Mathlib.Analysis.SpecialFunctions.Trigonometric.Series
import RasterEdit.Proofs.Binary.PiDigits
import RasterEdit.Proofs.Binary.Remainder

/-!
# Accuracy of sine and cosine

Sine and cosine are within `2 ^ -52` of the real ones, whatever the size of the angle. The terms of
both series are compared one by one with the exact ones; the reduction to quarter turns keeps enough
bits of π for the exponent of the angle; and the fixed point is rounded once at the end.
-/

set_option autoImplicit false

namespace RasterEdit

namespace FixedPoint

/-! ## Terms -/

/-- The terms that the loop of the series adds, each cut to an integer. -/
def cutTerm (square start k : ℕ) : ℕ → ℕ
  | 0 => start
  | i + 1 =>
    (cutTerm square start k i * square) >>> precision / ((k + 2 * i) * (k + 2 * i + 1))

theorem cutTerm_of_zero {square start k i : ℕ} (zero : cutTerm square start k i = 0) (l : ℕ) :
    cutTerm square start k (i + l) = 0 := by
  induction l with
  | zero => exact zero
  | succ l ih =>
    change (cutTerm square start k (i + l) * square) >>> precision / _ = 0
    rw [ih, Nat.zero_mul, Nat.zero_shiftRight, Nat.zero_div]

theorem alternating_eq (square start k fuel i : ℕ) (positive : Bool) (total : ℤ) :
    alternating square fuel (cutTerm square start k i) (k + 2 * i) positive total =
      total + (if positive then 1 else -1) *
        ∑ l ∈ Finset.range fuel, (-1) ^ l * (cutTerm square start k (i + l) : ℤ) := by
  induction fuel generalizing i positive total with
  | zero => simp [alternating]
  | succ fuel ih =>
    rw [alternating_succ]
    by_cases zero : cutTerm square start k i = 0
    · simp [zero, cutTerm_of_zero zero]
    · rw [if_neg zero]
      change alternating square fuel (cutTerm square start k (i + 1)) (k + 2 * (i + 1)) _ _ = _
      rw [ih, Finset.sum_range_succ']
      have shifted (l : ℕ) :
          cutTerm square start k (i + (l + 1)) = cutTerm square start k (i + 1 + l) := by
        rw [Nat.add_right_comm, Nat.add_assoc]
      simp only [shifted, pow_succ (-1 : ℤ), mul_neg, mul_one, neg_mul, Finset.sum_neg_distrib]
      cases positive <;> simp <;> ring

/-- The exact terms of the sine (`j = 1`) and the cosine (`j = 0`), without their signs. -/
noncomputable def powerTerm (y : ℝ) (j i : ℕ) : ℝ :=
  y ^ (2 * i + j) / ((2 * i + j).factorial : ℝ)

section Terms

variable {y : ℝ} (nonneg : 0 ≤ y) (short : y ≤ 2) (j : ℕ)

theorem powerTerm_succ (y : ℝ) (i : ℕ) : powerTerm y j (i + 1) =
    powerTerm y j i * y ^ 2 / (((j + 1 + 2 * i) * (j + 1 + 2 * i + 1) : ℕ) : ℝ) := by
  have index : 2 * (i + 1) + j = 2 * i + j + 1 + 1 := by ring
  have first : j + 1 + 2 * i = 2 * i + j + 1 := by ring
  rw [powerTerm, powerTerm, index, first, Nat.factorial_succ, Nat.factorial_succ, pow_add, pow_add]
  push_cast
  field_simp

include nonneg in
theorem powerTerm_nonneg (i : ℕ) : 0 ≤ powerTerm y j i := by
  unfold powerTerm
  positivity

include nonneg short

theorem powerTerm_le_two (i : ℕ) : powerTerm y j i ≤ 2 := by
  have grows (n : ℕ) : 2 ^ n ≤ 2 * n.factorial := by
    induction n with
    | zero => decide
    | succ n ih =>
      cases n with
      | zero => decide
      | succ n =>
        rw [pow_succ, Nat.factorial_succ]
        nlinarith [Nat.factorial_pos (n + 1)]
  have bound : (2 : ℝ) ^ (2 * i + j) ≤ 2 * ((2 * i + j).factorial : ℝ) := by
    exact_mod_cast grows (2 * i + j)
  unfold powerTerm
  rw [div_le_iff₀ (by positivity)]
  exact (pow_le_pow_left₀ nonneg short _).trans bound

theorem powerTerm_falls {i : ℕ} (later : 1 ≤ i) :
    powerTerm y j (i + 1) ≤ powerTerm y j i / 2 := by
  have square : y ^ 2 ≤ 4 := by nlinarith
  have factors : (12 : ℝ) ≤ (((j + 1 + 2 * i) * (j + 1 + 2 * i + 1) : ℕ) : ℝ) := by
    have product : 3 * 4 ≤ (j + 1 + 2 * i) * (j + 1 + 2 * i + 1) :=
      Nat.mul_le_mul (by omega) (by omega)
    exact_mod_cast product
  have term := powerTerm_nonneg nonneg j i
  rw [powerTerm_succ]
  calc _ ≤ powerTerm y j i * 4 / 12 := by gcongr
    _ ≤ powerTerm y j i / 2 := by linarith

/-- One step of a series: the next term is cut off by one unit, and what the term and the square
were cut off by adds less than `d + 1`. -/
theorem nextTerm_near {square term K : ℕ} {t d : ℝ} (positive : 0 < K)
    (above : (term : ℝ) ≤ 2 ^ precision * t) (below : 2 ^ precision * t ≤ term + d)
    (small : t ≤ 2) (lost : 0 ≤ d) (room : 4 * d + 2 ≤ (d + 1) * K)
    (squareLe : (square : ℝ) ≤ y ^ 2 * 2 ^ precision)
    (leSquare : y ^ 2 * 2 ^ precision ≤ square + 1) :
    ((term * square) >>> precision / K : ℕ) ≤ 2 ^ precision * (t * y ^ 2 / K) ∧
      2 ^ precision * (t * y ^ 2 / K) ≤ ((term * square) >>> precision / K : ℕ) + (d + 2) := by
  have divisor : (0 : ℝ) < K := by exact_mod_cast positive
  have unit : (0 : ℝ) < 2 ^ precision := by positivity
  have high := Nat.cast_div_le (α := ℝ) (m := term * square) (n := 2 ^ precision * K)
  have low := (abs_le.mp (div_near (term * square) (2 ^ precision * K))).1
  rw [Nat.shiftRight_eq_div_pow, Nat.div_div_eq_div_mul]
  rw [Nat.cast_mul, Nat.cast_mul, Nat.cast_pow, Nat.cast_ofNat] at high low
  generalize ((term * square / (2 ^ precision * K) : ℕ) : ℝ) = next at *
  generalize (2 : ℝ) ^ precision = u at *
  have product := term.cast_nonneg.trans above
  have ySquare : y ^ 2 ≤ 4 := by nlinarith
  have exact : u * (t * y ^ 2 / K) = u * t * (y ^ 2 * u) / (u * K) := by
    field_simp
  rw [exact]
  constructor
  · calc next ≤ term * square / (u * K) := high
      _ ≤ u * t * (y ^ 2 * u) / (u * K) := by gcongr
  · have sum : u * t * (y ^ 2 * u) ≤ term * square + (d + 1) * (u * K) := by
      calc u * t * (y ^ 2 * u) ≤ (term + d) * (y ^ 2 * u) := by gcongr
        _ = term * (y ^ 2 * u) + d * y ^ 2 * u := by ring
        _ ≤ term * (square + 1) + d * 4 * u := by gcongr
        _ ≤ term * square + u * 2 + d * 4 * u := by
            linarith [mul_le_mul_of_nonneg_left small unit.le]
        _ = term * square + (4 * d + 2) * u := by ring
        _ ≤ term * square + (d + 1) * K * u := by gcongr
        _ = term * square + (d + 1) * (u * K) := by ring
    calc u * t * (y ^ 2 * u) / (u * K) ≤ (term * square + (d + 1) * (u * K)) / (u * K) := by gcongr
      _ = term * square / (u * K) + (d + 1) := by field_simp
      _ ≤ next + (d + 2) := by linarith

/-- A cut term is too small, by at most two units a step. -/
theorem cutTerm_near {square start : ℕ} (first : (start : ℝ) = 2 ^ precision * powerTerm y j 0)
    (squareLe : (square : ℝ) ≤ y ^ 2 * 2 ^ precision)
    (leSquare : y ^ 2 * 2 ^ precision ≤ square + 1) (i : ℕ) :
    (cutTerm square start (j + 1) i : ℝ) ≤ 2 ^ precision * powerTerm y j i ∧
      2 ^ precision * powerTerm y j i ≤ cutTerm square start (j + 1) i + 2 * i := by
  induction i with
  | zero => simp [cutTerm, first]
  | succ i ih =>
    have factors : (2 * i + 1) * (2 * i + 2) ≤ (j + 1 + 2 * i) * (j + 1 + 2 * i + 1) :=
      Nat.mul_le_mul (by omega) (by omega)
    have room : 4 * (2 * i : ℝ) + 2 ≤
        (2 * i + 1) * (((j + 1 + 2 * i) * (j + 1 + 2 * i + 1) : ℕ) : ℝ) := by
      have whole : 4 * (2 * i) + 2 ≤
          (2 * i + 1) * ((j + 1 + 2 * i) * (j + 1 + 2 * i + 1)) := by
        calc 4 * (2 * i) + 2 ≤ 4 * (2 * i) + 2 + (8 * i ^ 3 + 16 * i ^ 2 + 2 * i) :=
              Nat.le_add_right ..
          _ = (2 * i + 1) * ((2 * i + 1) * (2 * i + 2)) := by ring
          _ ≤ _ := Nat.mul_le_mul_left _ factors
      exact_mod_cast whole
    have step := nextTerm_near nonneg short (Nat.mul_pos (by omega) (by omega)) ih.1 ih.2
      (powerTerm_le_two nonneg short j i) (by positivity) room squareLe leSquare
    rw [powerTerm_succ, cutTerm]
    refine ⟨step.1, step.2.trans (le_of_eq ?_)⟩
    push_cast
    ring

/-- Eighty terms leave nothing that the fixed point could show. -/
theorem powerTerm_last (early : j ≤ 1) : 2 ^ precision * (2 * powerTerm y j 80) ≤ 1 := by
  have power : powerTerm y j 80 ≤ 2 ^ (2 * 80 + j) / ((2 * 80 + j).factorial : ℝ) := by
    unfold powerTerm
    gcongr
  have tiny :
      (2 : ℝ) ^ precision * (2 * (2 ^ (2 * 80 + j) / ((2 * 80 + j).factorial : ℝ))) ≤ 1 := by
    interval_cases j <;> norm_num [Nat.factorial, precision]
  calc _ ≤ 2 ^ precision * (2 * (2 ^ (2 * 80 + j) / ((2 * 80 + j).factorial : ℝ))) := by gcongr
    _ ≤ 1 := tiny

/-- Both series, if their first term is exact. -/
theorem alternating_near {square start : ℕ} {value : ℝ} (early : j ≤ 1)
    (sums : HasSum (fun i => (-1) ^ i * powerTerm y j i) value)
    (first : (start : ℝ) = 2 ^ precision * powerTerm y j 0)
    (squareLe : (square : ℝ) ≤ y ^ 2 * 2 ^ precision)
    (leSquare : y ^ 2 * 2 ^ precision ≤ square + 1) :
    |(alternating square 80 start (j + 1) true 0 : ℝ) - 2 ^ precision * value| ≤ 2 ^ 13 := by
  have unit : (0 : ℝ) < 2 ^ precision := by positivity
  have size (i : ℕ) : |(-1) ^ i * powerTerm y j i| = powerTerm y j i := by
    rw [abs_mul, abs_neg_one_pow, one_mul, abs_of_nonneg (powerTerm_nonneg nonneg j i)]
  have rest := abs_sub_sum_le sums 80 fun i later => by
    rw [size, size]
    exact powerTerm_falls nonneg short j (by omega)
  have tail : |2 ^ precision * ∑ i ∈ Finset.range 80, (-1) ^ i * powerTerm y j i -
      2 ^ precision * value| ≤ 1 := by
    rw [← mul_sub, abs_mul, abs_of_pos unit, abs_sub_comm]
    rw [size] at rest
    exact (mul_le_mul_of_nonneg_left rest unit.le).trans (powerTerm_last nonneg short j early)
  have cut : |(alternating square 80 start (j + 1) true 0 : ℝ) -
      2 ^ precision * ∑ i ∈ Finset.range 80, (-1) ^ i * powerTerm y j i| ≤ 6320 := by
    have unrolled := alternating_eq square start (j + 1) 80 0 true 0
    rw [cutTerm, if_pos rfl, zero_add, one_mul, Nat.mul_zero, Nat.add_zero] at unrolled
    rw [unrolled, Finset.mul_sum]
    simp only [Int.cast_sum, Int.cast_mul, Int.cast_pow, Int.cast_neg, Int.cast_one,
      Int.cast_natCast, Nat.zero_add]
    rw [← Finset.sum_sub_distrib]
    calc _ ≤ ∑ i ∈ Finset.range 80, 2 * (i : ℝ) := by
          refine (Finset.abs_sum_le_sum_abs _ _).trans (Finset.sum_le_sum fun i _ => ?_)
          have near := cutTerm_near nonneg short j first squareLe leSquare i
          rw [mul_left_comm, ← mul_sub, abs_mul, abs_neg_one_pow, one_mul, abs_le]
          constructor <;> linarith
      _ = 6320 := by
          rw [← Finset.mul_sum]
          norm_num [Finset.sum_range_succ]
  calc |(alternating square 80 start (j + 1) true 0 : ℝ) - 2 ^ precision * value|
      ≤ _ + _ := abs_sub_le _ _ _
    _ ≤ 6320 + 1 := add_le_add cut tail
    _ ≤ 2 ^ 13 := by norm_num

end Terms

/-- Sine and cosine of an angle between zero and two. -/
theorem sinCos_near {r : ℕ} (short : r ≤ 2 * 2 ^ precision) :
    |((sinCos r).1 : ℝ) - 2 ^ precision * Real.sin (r / 2 ^ precision)| ≤ 2 ^ 13 ∧
      |((sinCos r).2 : ℝ) - 2 ^ precision * Real.cos (r / 2 ^ precision)| ≤ 2 ^ 13 := by
  have unit : (0 : ℝ) < 2 ^ precision := by positivity
  have nonneg : (0 : ℝ) ≤ r / 2 ^ precision := by positivity
  have shortReal : (r : ℝ) / 2 ^ precision ≤ 2 := by
    rw [div_le_iff₀ unit]
    exact_mod_cast short
  have square : ((r : ℝ) / 2 ^ precision) ^ 2 * 2 ^ precision =
      (r * r : ℕ) / (2 ^ precision : ℕ) := by
    push_cast
    field_simp
  have squareLe : (((r * r) >>> precision : ℕ) : ℝ) ≤
      ((r : ℝ) / 2 ^ precision) ^ 2 * 2 ^ precision := by
    rw [square, Nat.shiftRight_eq_div_pow]
    exact Nat.cast_div_le
  have leSquare : ((r : ℝ) / 2 ^ precision) ^ 2 * 2 ^ precision ≤
      (((r * r) >>> precision : ℕ) : ℝ) + 1 := by
    have cut := (abs_le.mp (div_near (r * r) (2 ^ precision))).1
    rw [square, Nat.shiftRight_eq_div_pow]
    linarith
  constructor
  · have first : (r : ℝ) = 2 ^ precision * powerTerm (r / 2 ^ precision) 1 0 := by
      rw [powerTerm, Nat.mul_zero, Nat.zero_add, Nat.factorial_one, pow_one, Nat.cast_one, div_one,
        mul_div_cancel₀ _ unit.ne']
    have sums := Real.hasSum_sin ((r : ℝ) / 2 ^ precision)
    simp only [mul_div_assoc] at sums
    have near := alternating_near nonneg shortReal 1 le_rfl sums first squareLe leSquare
    exact near
  · have first : ((1 <<< precision : ℕ) : ℝ) =
        2 ^ precision * powerTerm (r / 2 ^ precision) 0 0 := by
      rw [powerTerm, Nat.mul_zero, Nat.zero_add, Nat.factorial_zero, pow_zero, Nat.cast_one,
        div_one, mul_one, Nat.one_shiftLeft, Nat.cast_pow, Nat.cast_ofNat]
    have sums := Real.hasSum_cos ((r : ℝ) / 2 ^ precision)
    simp only [mul_div_assoc] at sums
    have near := alternating_near nonneg shortReal 0 zero_le_one sums first squareLe leSquare
    exact near

/-! ## Quarter turns -/

/-- A shift to either side cuts off less than a unit. -/
theorem shift_near (m : ℕ) (s : ℤ) :
    |((if 0 ≤ s then m <<< s.toNat else m >>> (-s).toNat : ℕ) : ℝ) - m * 2 ^ s| ≤ 1 := by
  split
  · next left =>
    have exact : ((m <<< s.toNat : ℕ) : ℝ) = m * 2 ^ s := by
      rw [Nat.shiftLeft_eq, Nat.cast_mul, Nat.cast_pow, Nat.cast_ofNat, ← zpow_natCast,
        Int.toNat_of_nonneg left]
    rw [exact, sub_self, abs_zero]
    exact zero_le_one
  · next right =>
    have quotient : (m : ℝ) * 2 ^ s = m / (2 ^ (-s).toNat : ℕ) := by
      rw [Nat.cast_pow, Nat.cast_ofNat, ← zpow_natCast, Int.toNat_of_nonneg (by omega), zpow_neg,
        div_inv_eq_mul]
    rw [quotient, Nat.shiftRight_eq_div_pow]
    exact div_near _ _

theorem quarter_near {bits : ℕ} (moderate : bits ≤ 2 ^ 20) :
    |((pi bits / 2 : ℕ) : ℝ) - 2 ^ bits * (Real.pi / 2)| ≤ 5 / 2 := by
  have digits := abs_le.mp (pi_near moderate)
  have cut := abs_le.mp (div_near (pi bits) 2)
  rw [Nat.cast_ofNat] at cut
  rw [abs_le]
  constructor <;> linarith

section Division

variable {bits : ℕ} (moderate : bits ≤ 2 ^ 20)

include moderate

/-- Every quarter turn taken off is off by as much as the fixed-point quarter is. -/
theorem turns_near (scaled : ℕ) :
    |(scaled : ℝ) - ((scaled / (pi bits / 2) : ℕ) * (2 ^ bits * (Real.pi / 2)) +
      (scaled % (pi bits / 2) : ℕ))| ≤ (scaled / (pi bits / 2) : ℕ) * (5 / 2) := by
  have whole : (scaled : ℝ) = (pi bits / 2 : ℕ) * (scaled / (pi bits / 2) : ℕ) +
      (scaled % (pi bits / 2) : ℕ) := by
    exact_mod_cast (Nat.div_add_mod scaled (pi bits / 2)).symm
  have exact : (scaled : ℝ) - ((scaled / (pi bits / 2) : ℕ) * (2 ^ bits * (Real.pi / 2)) +
      (scaled % (pi bits / 2) : ℕ)) =
        (scaled / (pi bits / 2) : ℕ) * ((pi bits / 2 : ℕ) - 2 ^ bits * (Real.pi / 2)) := by
    rw [whole]
    ring
  rw [exact, abs_mul, Nat.abs_cast]
  exact mul_le_mul_of_nonneg_left (quarter_near moderate) (Nat.cast_nonneg _)

theorem turns_le (enough : 3 ≤ bits) (scaled : ℕ) :
    ((scaled / (pi bits / 2) : ℕ) : ℝ) * 2 ^ bits ≤ scaled := by
  have low := (abs_le.mp (quarter_near moderate)).1
  have pi_gt := Real.pi_gt_three
  have power : (2 : ℝ) ^ 3 ≤ 2 ^ bits := pow_le_pow_right₀ one_le_two enough
  have large : (2 : ℝ) ^ bits ≤ (pi bits / 2 : ℕ) := by nlinarith
  calc ((scaled / (pi bits / 2) : ℕ) : ℝ) * 2 ^ bits
      ≤ (scaled / (pi bits / 2) : ℕ) * (pi bits / 2 : ℕ) := by gcongr
    _ ≤ scaled := by exact_mod_cast Nat.div_mul_le_self scaled (pi bits / 2)

/-- There are no more quarter turns than the magnitude of the angle allows, each as far off. -/
theorem reduced_near (enough : 3 ≤ bits) {v : ℝ} {magnitude scaled : ℕ} (size : v ≤ 2 ^ magnitude)
    (shift : |(scaled : ℝ) - v * 2 ^ bits| ≤ 1) :
    |v * 2 ^ bits - ((scaled / (pi bits / 2) : ℕ) * (2 ^ bits * (Real.pi / 2)) +
      (scaled % (pi bits / 2) : ℕ))| ≤ 1 + 5 * 2 ^ magnitude := by
  have turns := turns_near moderate scaled
  have few := turns_le moderate enough scaled
  have unit : (1 : ℝ) ≤ 2 ^ bits := one_le_pow₀ one_le_two
  have most : (1 : ℝ) ≤ 2 ^ magnitude := one_le_pow₀ one_le_two
  have small : ((scaled / (pi bits / 2) : ℕ) : ℝ) ≤ 2 * 2 ^ magnitude := by
    refine le_of_mul_le_mul_right ?_ (by linarith : (0 : ℝ) < 2 ^ bits)
    calc ((scaled / (pi bits / 2) : ℕ) : ℝ) * 2 ^ bits ≤ v * 2 ^ bits + 1 := by
          linarith [(abs_le.mp shift).2]
      _ ≤ 2 ^ magnitude * 2 ^ bits + 2 ^ magnitude * 2 ^ bits := by
          gcongr
          exact one_le_mul_of_one_le_of_one_le most unit
      _ = 2 * 2 ^ magnitude * 2 ^ bits := by ring
  rw [abs_sub_comm] at shift
  calc _ ≤ 1 + ((scaled / (pi bits / 2) : ℕ) : ℝ) * (5 / 2) :=
        (abs_sub_le _ _ _).trans (add_le_add shift turns)
    _ ≤ 1 + 2 * 2 ^ magnitude * (5 / 2) := by gcongr
    _ = 1 + 5 * 2 ^ magnitude := by ring

end Division

/-- The bits of π grow with the angle, so the error of the quarter turns taken off does not. -/
theorem quarterTurns_near {m : ℕ} {q : ℤ} (moderate : (m.log2 : ℤ) + 1 + q ≤ 2 ^ 16) :
    |(m : ℝ) * 2 ^ q - ((quarterTurns m q).1 * (Real.pi / 2) +
      (quarterTurns m q).2 / 2 ^ precision)| ≤ 2 / 2 ^ precision := by
  have kept : precision = 192 := rfl
  unfold quarterTurns
  simp only
  generalize hmagnitude : ((m.log2 : ℤ) + 1 + q).toNat = magnitude
  generalize hbits : precision + magnitude + 64 = bits
  have size : (m : ℝ) * 2 ^ q ≤ 2 ^ magnitude := by
    calc (m : ℝ) * 2 ^ q ≤ 2 ^ ((m.log2 : ℤ) + 1 + q) := Binary.mul_zpow_le_log2 m q
      _ ≤ 2 ^ (magnitude : ℤ) := zpow_le_zpow_right₀ one_le_two (by omega)
      _ = 2 ^ magnitude := zpow_natCast _ _
  have shift := shift_near m (q + bits)
  generalize (if 0 ≤ q + bits then _ else _ : ℕ) = scaled at *
  rw [zpow_add₀ two_ne_zero, zpow_natCast, ← mul_assoc] at shift
  have inRange : bits ≤ 2 ^ 20 := by omega
  have reduced := reduced_near inRange (by omega) size shift
  have scale : (2 : ℝ) ^ bits = 2 ^ precision * (2 ^ (bits - precision) : ℕ) := by
    rw [Nat.cast_pow, Nat.cast_ofNat, ← pow_add, Nat.add_sub_cancel' (by omega)]
  have guard : (1 : ℝ) + 5 * 2 ^ magnitude ≤ (2 ^ (bits - precision) : ℕ) := by
    have exponent : bits - precision = magnitude + 64 := by omega
    have most : (1 : ℝ) ≤ 2 ^ magnitude := one_le_pow₀ one_le_two
    rw [exponent, Nat.cast_pow, Nat.cast_ofNat, pow_add]
    linarith
  have cut := div_mul_near (scaled % (pi bits / 2)) (Nat.two_pow_pos (bits - precision))
  have unit : (0 : ℝ) < 2 ^ precision := by positivity
  have guardPos : (0 : ℝ) < (2 ^ (bits - precision) : ℕ) := by positivity
  rw [Nat.shiftRight_eq_div_pow]
  rw [scale] at reduced
  generalize (m : ℝ) * 2 ^ q = v at *
  generalize ((scaled % (pi bits / 2) / 2 ^ (bits - precision) : ℕ) : ℝ) = d at *
  generalize ((scaled / (pi bits / 2) : ℕ) : ℝ) = t at *
  generalize ((scaled % (pi bits / 2) : ℕ) : ℝ) = r at *
  generalize ((2 ^ (bits - precision) : ℕ) : ℝ) = g at *
  generalize (2 : ℝ) ^ precision = u at *
  have exact : v - (t * (Real.pi / 2) + d / u) =
      (v * (u * g) - (t * (u * g * (Real.pi / 2)) + r) - (d * g - r)) / (u * g) := by
    field_simp
    ring
  have total : |v * (u * g) - (t * (u * g * (Real.pi / 2)) + r) - (d * g - r)| ≤ 2 * g := by
    calc _ ≤ 1 + 5 * 2 ^ magnitude + g := (abs_sub _ _).trans (add_le_add reduced cut)
      _ ≤ 2 * g := by linarith
  rw [exact, abs_div, abs_of_pos (by positivity : 0 < u * g)]
  calc _ ≤ 2 * g / (u * g) := by gcongr
    _ = 2 / u := by field_simp

/-- The readings of sine and cosine that a number of quarter turns asks for. -/
theorem turned_near {s c : ℤ} {u y ε : ℝ} (sine : |(s : ℝ) - u * Real.sin y| ≤ ε)
    (cosine : |(c : ℝ) - u * Real.cos y| ≤ ε) (quarters : ℕ) :
    let read : ℤ × ℤ := match quarters % 4 with
      | 0 => (s, c)
      | 1 => (c, -s)
      | 2 => (-s, -c)
      | _ => (-c, s)
    |(read.1 : ℝ) - u * Real.sin (quarters * (Real.pi / 2) + y)| ≤ ε ∧
      |(read.2 : ℝ) - u * Real.cos (quarters * (Real.pi / 2) + y)| ≤ ε := by
  have opposite {n : ℤ} {v : ℝ} (near : |(n : ℝ) - u * v| ≤ ε) :
      |((-n : ℤ) : ℝ) - u * -v| ≤ ε := by
    rw [Int.cast_neg, mul_neg, neg_sub_neg, abs_sub_comm]
    exact near
  have whole : (quarters : ℝ) = 4 * (quarters / 4 : ℕ) + (quarters % 4 : ℕ) := by
    exact_mod_cast (Nat.div_add_mod quarters 4).symm
  have turns : quarters * (Real.pi / 2) + y =
      (quarters % 4 : ℕ) * (Real.pi / 2) + y + (quarters / 4 : ℕ) * (2 * Real.pi) := by
    rw [whole]
    ring
  have below : quarters % 4 < 4 := Nat.mod_lt _ (by decide)
  rw [turns, Real.sin_add_nat_mul_two_pi, Real.cos_add_nat_mul_two_pi]
  generalize quarters % 4 = i at *
  interval_cases i
  · simpa using ⟨sine, cosine⟩
  · have angle : ((1 : ℕ) : ℝ) * (Real.pi / 2) + y = y + Real.pi / 2 := by
      push_cast
      ring
    rw [angle, Real.sin_add_pi_div_two, Real.cos_add_pi_div_two]
    exact ⟨cosine, opposite sine⟩
  · have angle : ((2 : ℕ) : ℝ) * (Real.pi / 2) + y = y + Real.pi := by
      push_cast
      ring
    rw [angle, Real.sin_add_pi, Real.cos_add_pi]
    exact ⟨opposite sine, opposite cosine⟩
  · have angle : ((3 : ℕ) : ℝ) * (Real.pi / 2) + y = y + Real.pi / 2 + Real.pi := by
      push_cast
      ring
    rw [angle, Real.sin_add_pi, Real.cos_add_pi, Real.sin_add_pi_div_two, Real.cos_add_pi_div_two,
      neg_neg]
    exact ⟨opposite cosine, sine⟩

end FixedPoint

/-! ## Values -/

namespace Real64

open Binary

theorem ofFixedPoint_near {n : ℤ} {v : ℝ} (small : |v| ≤ 1)
    (near : |(n : ℝ) - 2 ^ FixedPoint.precision * v| ≤ 2 ^ 14) :
    |((ofFixedPoint .binary64 n).number : ℝ) - v| ≤ 1 / 2 ^ 53 + 1 / 2 ^ 178 := by
  have kept : FixedPoint.precision = 192 := rfl
  rw [kept] at near
  have units : |n| ≤ 2 ^ 192 + 2 ^ 14 := by
    have real : |(n : ℝ)| ≤ 2 ^ 192 + 2 ^ 14 := by
      have bounds := abs_le.mp near
      have value := abs_le.mp small
      rw [abs_le]
      constructor <;> linarith
    exact_mod_cast real
  have below : |(n : ℚ) * 2 ^ (-192 : ℤ)| < 2 := by
    have unitsRat : |(n : ℚ)| ≤ 2 ^ 192 + 2 ^ 14 := by exact_mod_cast units
    rw [abs_mul, abs_of_pos (by positivity : (0 : ℚ) < 2 ^ (-192 : ℤ)), zpow_neg, ← div_eq_mul_inv,
      div_lt_iff₀ (by positivity)]
    exact unitsRat.trans_lt (by norm_num)
  have signed : SignedRounded (ofFixedPoint .binary64 n) (n * 2 ^ (-192 : ℤ)) :=
    signedRounded_units (by decide) (by decide) (below.trans (by
      simpa using two_pow_lt_overflow (show 1 ≤ 1023 by decide)))
  have rounded : |(ofFixedPoint .binary64 n).number - n * 2 ^ (-192 : ℤ)| ≤ 1 / 2 * 2 ^ (-52 : ℤ) :=
    signed.error_of_lt (by decide) below
  have roundedReal := (Rat.cast_le (K := ℝ)).mpr rounded
  push_cast at roundedReal
  have exact : |(n : ℝ) * 2 ^ (-192 : ℤ) - v| ≤ 1 / 2 ^ 178 := by
    have scaled : (n : ℝ) * 2 ^ (-192 : ℤ) - v = (n - 2 ^ 192 * v) * 2 ^ (-192 : ℤ) := by
      rw [zpow_neg, zpow_ofNat]
      field_simp
    rw [scaled, abs_mul, abs_of_pos (by positivity : (0 : ℝ) < 2 ^ (-192 : ℤ))]
    calc _ ≤ (2 : ℝ) ^ 14 * 2 ^ (-192 : ℤ) := by gcongr
      _ = 1 / 2 ^ 178 := by norm_num
  calc _ ≤ |((ofFixedPoint .binary64 n).number : ℝ) - n * 2 ^ (-192 : ℤ)| +
        |(n : ℝ) * 2 ^ (-192 : ℤ) - v| := abs_sub_le ..
    _ ≤ 1 / 2 * 2 ^ (-52 : ℤ) + 1 / 2 ^ 178 := add_le_add roundedReal exact
    _ = 1 / 2 ^ 53 + 1 / 2 ^ 178 := by norm_num

/-- Below `2 ^ -27` the angle and one are the sine and the cosine next to them. -/
theorem tiny_near {v : ℝ} (tiny : |v| ≤ 1 / 2 ^ 27) :
    |v - Real.sin v| ≤ 1 / 2 ^ 52 ∧ |1 - Real.cos v| ≤ 1 / 2 ^ 52 := by
  have cube : |v| ^ 3 ≤ (1 / 2 ^ 27) ^ 3 := by gcongr
  have fifth : |v| ^ 5 ≤ (1 / 2 ^ 27) ^ 5 := by gcongr
  have square : v ^ 2 ≤ (1 / 2 ^ 27) ^ 2 := by
    rw [← sq_abs]
    gcongr
  constructor
  · have series := Real.sin_bound (x := v) (tiny.trans (by norm_num))
    have split : v - Real.sin v = v ^ 3 / 6 - (Real.sin v - (v - v ^ 3 / 6)) := by ring
    rw [split]
    calc _ ≤ |v ^ 3 / 6| + |Real.sin v - (v - v ^ 3 / 6)| := abs_sub _ _
      _ ≤ (1 / 2 ^ 27) ^ 3 / 6 + (1 / 2 ^ 27) ^ 5 / 100 := by
          rw [abs_div, abs_pow, abs_of_pos (by norm_num : (0 : ℝ) < 6)]
          linarith
      _ ≤ 1 / 2 ^ 52 := by norm_num
  · have low := Real.one_sub_sq_div_two_le_cos (x := v)
    have high := Real.cos_le_one v
    rw [abs_of_nonneg (by linarith)]
    calc 1 - Real.cos v ≤ (1 / 2 ^ 27) ^ 2 / 2 := by linarith
      _ ≤ 1 / 2 ^ 52 := by norm_num

/-- The readings are taken at an angle next to the one asked for, and its sign is put back. -/
theorem reading_near {m q sine cosine : ℤ} {angle : ℝ}
    (sineNear : |(sine : ℝ) - 2 ^ FixedPoint.precision * Real.sin angle| ≤ 2 ^ 13)
    (cosineNear : |(cosine : ℝ) - 2 ^ FixedPoint.precision * Real.cos angle| ≤ 2 ^ 13)
    (near : |(m.natAbs : ℝ) * 2 ^ q - angle| ≤ 2 / 2 ^ FixedPoint.precision) :
    |((ofFixedPoint .binary64 (if m < 0 then -sine else sine)).number : ℝ) -
        Real.sin (m * 2 ^ q)| ≤ 1 / 2 ^ 52 ∧
      |((ofFixedPoint .binary64 cosine).number : ℝ) - Real.cos (m * 2 ^ q)| ≤ 1 / 2 ^ 52 := by
  have unit : (0 : ℝ) < 2 ^ FixedPoint.precision := by positivity
  have rounding : (1 : ℝ) / 2 ^ 53 + 1 / 2 ^ 178 ≤ 1 / 2 ^ 52 := by norm_num
  generalize hv : (m.natAbs : ℝ) * 2 ^ q = v at *
  have moved {n : ℤ} {a b : ℝ} (le : |a - b| ≤ |v - angle|)
      (reads : |(n : ℝ) - 2 ^ FixedPoint.precision * b| ≤ 2 ^ 13) :
      |(n : ℝ) - 2 ^ FixedPoint.precision * a| ≤ 2 ^ 14 := by
    generalize (2 : ℝ) ^ FixedPoint.precision = u at *
    have shift : |u * b - u * a| ≤ 2 := by
      rw [← mul_sub, abs_mul, abs_of_pos unit, abs_sub_comm]
      calc u * |a - b| ≤ u * (2 / u) := by
            gcongr
            exact le.trans near
        _ = 2 := mul_div_cancel₀ _ unit.ne'
    calc |(n : ℝ) - u * a| ≤ |(n : ℝ) - u * b| + |u * b - u * a| := abs_sub_le ..
      _ ≤ 2 ^ 13 + 2 := add_le_add reads shift
      _ ≤ 2 ^ 14 := by norm_num
  have readSine := moved (Real.abs_sin_sub_sin_le v angle) sineNear
  have readCosine := moved (Real.abs_cos_sub_cos_le v angle) cosineNear
  have cosineFinal := (ofFixedPoint_near (Real.abs_cos_le_one v) readCosine).trans rounding
  split
  · next negative =>
    have sign : (m : ℝ) = -(m.natAbs : ℝ) := by
      exact_mod_cast (by omega : m = -(m.natAbs : ℤ))
    have opposite : |((-sine : ℤ) : ℝ) - 2 ^ FixedPoint.precision * -Real.sin v| ≤ 2 ^ 14 := by
      rw [Int.cast_neg, mul_neg, neg_sub_neg, abs_sub_comm]
      exact readSine
    have sineBelow : |-Real.sin v| ≤ 1 := by
      rw [abs_neg]
      exact Real.abs_sin_le_one v
    rw [sign, neg_mul, hv, Real.sin_neg, Real.cos_neg]
    exact ⟨(ofFixedPoint_near sineBelow opposite).trans rounding, cosineFinal⟩
  · next nonneg =>
    have sign : (m : ℝ) = (m.natAbs : ℝ) := by
      rw [← Int.cast_natCast, Int.natAbs_of_nonneg (not_lt.mp nonneg)]
    rw [sign, hv]
    exact ⟨(ofFixedPoint_near (Real.abs_sin_le_one v) readSine).trans rounding, cosineFinal⟩

variable {x : Real64} (finite : x.isFinite = true)

include finite

theorem log2_parts_lt {m q : ℤ} (parts : x.parts? = some (m, q)) (nonzero : m ≠ 0) :
    (m.natAbs.log2 : ℤ) + q < 1024 := by
  have below := (abs_number_lt finite).le
  have leading : ((2 ^ m.natAbs.log2 : ℕ) : ℚ) ≤ m.natAbs := by
    exact_mod_cast Nat.log2_self_le (Int.natAbs_ne_zero.mpr nonzero)
  rw [Nat.cast_pow, Nat.cast_ofNat, ← zpow_natCast] at leading
  have power : (2 : ℚ) ^ ((m.natAbs.log2 : ℤ) + q) < 2 ^ (1024 : ℤ) := by
    calc (2 : ℚ) ^ ((m.natAbs.log2 : ℤ) + q) = 2 ^ (m.natAbs.log2 : ℤ) * 2 ^ q :=
          zpow_add₀ two_ne_zero _ _
      _ ≤ m.natAbs * 2 ^ q := by gcongr
      _ = |x.number| := by rw [abs_number, magnitude_of_parts parts]
      _ < Format.binary64.overflow := by linarith
      _ < 2 ^ (1024 : ℤ) := overflow_lt_two_pow
  exact (zpow_lt_zpow_iff_right₀ one_lt_two).mp power

/-- Sine and cosine of any finite angle. -/
theorem sinCos_near : |(x.sin.number : ℝ) - Real.sin x.number| ≤ 1 / 2 ^ 52 ∧
    |(x.cos.number : ℝ) - Real.cos x.number| ≤ 1 / 2 ^ 52 := by
  obtain ⟨m, q, parts⟩ := exists_parts finite
  have number : (x.number : ℝ) = m * 2 ^ q := by
    rw [(number_of_parts parts).1]
    push_cast
    rfl
  simp only [sin, cos, sinCos, parts]
  split
  · next small =>
    have one : (Binary.ofInt .binary64 1).number = 1 := by
      have exact := number_ofInt (n := 1) (by decide)
      rwa [Int.cast_one] at exact
    have tiny : |(x.number : ℝ)| ≤ 1 / 2 ^ 27 := by
      rw [number, abs_mul, abs_of_pos (by positivity : (0 : ℝ) < 2 ^ q), ← Int.cast_abs,
        ← Nat.cast_natAbs]
      rcases small with rfl | low
      · simp
      · calc (m.natAbs : ℝ) * 2 ^ q ≤ 2 ^ ((m.natAbs.log2 : ℤ) + 1 + q) :=
              mul_zpow_le_log2 m.natAbs q
          _ ≤ 2 ^ (-27 : ℤ) := zpow_le_zpow_right₀ one_le_two low
          _ = 1 / 2 ^ 27 := by norm_num
    rw [one, Rat.cast_one]
    exact tiny_near tiny
  · next ordinary =>
    rw [not_or] at ordinary
    have moderate := log2_parts_lt finite parts ordinary.1
    have turns := FixedPoint.quarterTurns_near (m := m.natAbs) (q := q) (by omega)
    have short := FixedPoint.quarterTurns_rest_le m.natAbs q
    generalize FixedPoint.quarterTurns m.natAbs q = reduced at *
    obtain ⟨quarters, rest⟩ := reduced
    obtain ⟨sine, cosine⟩ := FixedPoint.sinCos_near short
    have turned := FixedPoint.turned_near sine cosine quarters
    rw [number]
    exact reading_near turned.1 turned.2 turns

end Real64

end RasterEdit
