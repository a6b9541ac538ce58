import RasterEdit.Binary.Angle
import RasterEdit.Proofs.Binary.Sign

/-!
# Sine and cosine of finite angles

The sine and the cosine of a finite angle are finite and not both zero. The fixed-point π is bounded
from both sides, so the rest of a reduction to quarter turns is short enough for the terms of the
sine series to fall, and a falling series of alternating signs keeps the sign of its first term.
-/

set_option autoImplicit false

namespace RasterEdit

namespace FixedPoint

/-! ## The fixed-point π -/

/-- A partial sum of falling terms of alternating signs lies between the sums before and after its
first term. -/
theorem arctanSeries_bounds (square fuel term odd : Nat) (total : Int) (nonzero : odd ≠ 0) :
    (total ≤ arctanSeries square fuel term odd true total ∧
      arctanSeries square fuel term odd true total ≤ total + (term / odd : Nat)) ∧
    (total - (term / odd : Nat) ≤ arctanSeries square fuel term odd false total ∧
      arctanSeries square fuel term odd false total ≤ total) := by
  induction fuel generalizing term odd total with
  | zero =>
    have nonneg := Int.natCast_nonneg (term / odd)
    simp only [arctanSeries]
    omega
  | succ fuel ih =>
    by_cases zero : term = 0
    · simp [arctanSeries, zero]
    · have falls : term / square / (odd + 2) ≤ term / odd :=
        Nat.div_le_div (Nat.div_le_self ..) (by omega) nonzero
      have next (total : Int) := ih (term / square) (odd + 2) total (by omega)
      simp only [arctanSeries, zero, ↓reduceIte, Bool.not_true, Bool.not_false, Bool.false_eq_true]
      generalize term / odd = part at *
      generalize term / square / (odd + 2) = nextPart at *
      have up := next (total - part)
      have down := next (total + part)
      omega

theorem arctanReciprocal_bounds (x bits : Nat) :
    ((1 <<< bits / x : Nat) : Int) - (1 <<< bits / x / (x * x) / 3 : Nat) ≤
        arctanReciprocal x bits ∧
      arctanReciprocal x bits ≤ (1 <<< bits / x : Nat) := by
  unfold arctanReciprocal
  constructor
  · by_cases zero : 1 <<< bits / x = 0
    · simp [arctanSeries, zero]
    · have rest := arctanSeries_bounds (x * x) bits (1 <<< bits / x / (x * x)) (1 + 2)
        (1 <<< bits / x : Nat) (by decide)
      simp only [arctanSeries, zero, ↓reduceIte, Bool.not_true, Nat.div_one, Int.zero_add]
      omega
  · have whole := arctanSeries_bounds (x * x) (bits + 1) (1 <<< bits / x) 1 0 (by decide)
    rw [Nat.div_one] at whole
    omega

theorem computePi_bounds (bits : Nat) :
    2 * 2 ^ bits ≤ computePi bits ∧ computePi bits ≤ 4 * 2 ^ bits := by
  have five := arctanReciprocal_bounds 5 (bits + 32)
  have large := arctanReciprocal_bounds 239 (bits + 32)
  have unit : 1 <<< (bits + 32) = 2 ^ bits * 4294967296 := by
    rw [Nat.one_shiftLeft, Nat.pow_add]
  have positive : 0 < 2 ^ bits := Nat.two_pow_pos bits
  unfold computePi
  simp only [Int.shiftRight_eq_div_pow]
  rw [unit] at five large
  generalize 2 ^ bits = u at *
  norm_num at five large ⊢
  omega

theorem pi_bounds (bits : Nat) :
    2 ≤ pi bits ∧ pi bits ≤ 4 * 2 ^ bits := by
  unfold pi
  split
  · next stored =>
    obtain ⟨low, high⟩ := computePi_bounds piBits
    have power : 2 ^ piBits = 2 ^ bits * 2 ^ (piBits - bits) := by
      rw [← Nat.pow_add, Nat.add_sub_cancel' stored]
    have unit : 0 < 2 ^ (piBits - bits) := Nat.two_pow_pos _
    have base : 0 < 2 ^ bits := Nat.two_pow_pos _
    rw [storedPi, Nat.shiftRight_eq_div_pow]
    constructor
    · rw [Nat.le_div_iff_mul_le unit]
      calc 2 * 2 ^ (piBits - bits) ≤ 2 * 2 ^ piBits := by
            rw [power]; nlinarith
        _ ≤ computePi piBits := low
    · apply Nat.div_le_of_le_mul
      calc computePi piBits ≤ 4 * 2 ^ piBits := high
        _ = 2 ^ (piBits - bits) * (4 * 2 ^ bits) := by rw [power]; ring
  · have base : 0 < 2 ^ bits := Nat.two_pow_pos _
    have bounds := computePi_bounds bits
    omega

/-! ## The series of sine and cosine -/

/-- What is left of an angle after whole quarter turns, in fixed point. -/
theorem quarterTurns_rest_le (m : Nat) (q : Int) : (quarterTurns m q).2 ≤ 2 * 2 ^ precision := by
  unfold quarterTurns
  simp only
  generalize hbits : precision + ((m.log2 : Int) + 1 + q).toNat + 64 = bits
  generalize (if 0 ≤ q + bits then _ else _ : Nat) = scaled
  have enough : precision ≤ bits := by omega
  obtain ⟨low, high⟩ := pi_bounds bits
  have quarter : 0 < pi bits / 2 := by omega
  have rest := Nat.mod_lt scaled quarter
  rw [Nat.shiftRight_eq_div_pow]
  apply Nat.div_le_of_le_mul
  have power : 2 ^ bits = 2 ^ (bits - precision) * 2 ^ precision := by
    rw [← Nat.pow_add, Nat.sub_add_cancel enough]
  calc scaled % (pi bits / 2) ≤ 2 * 2 ^ bits := by omega
    _ = 2 ^ (bits - precision) * (2 * 2 ^ precision) := by rw [power]; ring

theorem nextTerm_le {square : Nat} (small : square ≤ 4 * 2 ^ precision) (term divisor : Nat) :
    (term * square) >>> precision / divisor ≤ 4 * term / divisor := by
  apply Nat.div_le_div_right
  rw [Nat.shiftRight_eq_div_pow]
  apply Nat.div_le_of_le_mul
  calc term * square ≤ term * (4 * 2 ^ precision) := Nat.mul_le_mul_left term small
    _ = 2 ^ precision * (4 * term) := by ring

theorem nextTerm_lt {square term k : Nat} (small : square ≤ 4 * 2 ^ precision) (nonzero : term ≠ 0)
    (later : 2 ≤ k) : (term * square) >>> precision / (k * (k + 1)) < term := by
  have factors : 2 * 3 ≤ k * (k + 1) := Nat.mul_le_mul later (by omega)
  calc (term * square) >>> precision / (k * (k + 1)) ≤ 4 * term / (k * (k + 1)) :=
        nextTerm_le small term _
    _ ≤ 4 * term / 6 := Nat.div_le_div_left factors (by decide)
    _ < term := by omega

theorem alternating_succ (square fuel term k : Nat) (positive : Bool) (total : Int) :
    alternating square (fuel + 1) term k positive total =
      if term = 0 then total
      else
        alternating square fuel ((term * square) >>> precision / (k * (k + 1))) (k + 2) (!positive)
          (if positive then total + term else total - term) := rfl

/-- The terms fall from the second factor pair on, since the argument is at most two. -/
theorem alternating_bounds {square k : Nat} (fuel term : Nat) (total : Int)
    (small : square ≤ 4 * 2 ^ precision) (later : 2 ≤ k) :
    (total ≤ alternating square fuel term k true total ∧
      alternating square fuel term k true total ≤ total + term) ∧
    (total - term ≤ alternating square fuel term k false total ∧
      alternating square fuel term k false total ≤ total) := by
  induction fuel generalizing term k total with
  | zero => simp [alternating]
  | succ fuel ih =>
    by_cases zero : term = 0
    · simp [alternating_succ, zero]
    · have falls := nextTerm_lt small zero later
      have next (total : Int) := ih ((term * square) >>> precision / (k * (k + 1))) total
        (k := k + 2) (by omega)
      have up := next (total - term)
      have down := next (total + term)
      simp only [alternating_succ, zero, ↓reduceIte, Bool.not_true, Bool.not_false,
        Bool.false_eq_true]
      omega

/-- Sine and cosine of an angle between zero and two. -/
theorem sinCos_bounds {r : Nat} (short : r ≤ 2 * 2 ^ precision) :
    (0 ≤ (sinCos r).1 ∧ (sinCos r).1 ≤ r) ∧
      (-((2 ^ precision : Nat) : Int) ≤ (sinCos r).2 ∧ (sinCos r).2 ≤ (2 ^ precision : Nat)) ∧
      ((sinCos r).1 ≠ 0 ∨ (sinCos r).2 ≠ 0) := by
  have small : (r * r) >>> precision ≤ 4 * 2 ^ precision := by
    rw [Nat.shiftRight_eq_div_pow]
    apply Nat.div_le_of_le_mul
    calc r * r ≤ 2 * 2 ^ precision * (2 * 2 ^ precision) := Nat.mul_le_mul short short
      _ = 2 ^ precision * (4 * 2 ^ precision) := by ring
  have positive : 0 < 2 ^ precision := Nat.two_pow_pos _
  have atZero : (sinCos 0).2 ≠ 0 := by decide
  refine ⟨?_, ?_, ?_⟩
  · have sine := (alternating_bounds 80 r 0 small (k := 2) (le_refl _)).1
    simp only [sinCos]
    omega
  · have second := nextTerm_le small (2 ^ precision) (1 * (1 + 1))
    have rest := (alternating_bounds 79
      ((2 ^ precision * ((r * r) >>> precision)) >>> precision / (1 * (1 + 1)))
      (0 + (2 ^ precision : Nat)) small (k := 1 + 2) (by omega)).2
    simp only [sinCos, Nat.one_shiftLeft]
    rw [alternating_succ _ 79, if_neg positive.ne', if_pos rfl]
    simp only [Bool.not_true]
    generalize (2 ^ precision * ((r * r) >>> precision)) >>> precision / (1 * (1 + 1)) = nextTerm
      at *
    generalize 2 ^ precision = unit at *
    omega
  · by_cases zero : r = 0
    · rw [zero]
      exact .inr atZero
    · left
      have falls := nextTerm_lt small zero (k := 2) (le_refl _)
      have rest := (alternating_bounds 79
        ((r * ((r * r) >>> precision)) >>> precision / (2 * (2 + 1)))
        (0 + (r : Int)) small (k := 2 + 2) (by omega)).2
      simp only [sinCos]
      rw [alternating_succ _ 79, if_neg zero, if_pos rfl]
      simp only [Bool.not_true]
      omega

end FixedPoint

/-! ## Sine and cosine of a value -/

namespace Real64

/-- From degrees to radians: the rounded quotient of the rounded π and 180. -/
theorem radiansFactor_eq : Binary.pi .binary64 / Binary.ofInt .binary64 180 =
    .signed false 4580687790476533049 (by decide) := by
  decide +kernel

theorem magnitude_two : Format.binary64.magnitude (1024 * 2 ^ 52) = 2 := by
  have significand : Format.binary64.significand (1024 * 2 ^ 52) = 2 ^ 52 := by decide
  have quantum : Format.binary64.quantum (1024 * 2 ^ 52) = -51 := by decide
  rw [Format.magnitude, significand, quantum]
  norm_num

theorem nearestRank_fixedPoint {n : Nat} (small : n ≤ 2 * 2 ^ FixedPoint.precision) :
    Binary.nearestRank .binary64 n 1 (-(FixedPoint.precision : Int)) ≤ 1024 * 2 ^ 52 := by
  apply Binary.nearestRank_le (by decide) one_ne_zero
  have smallRat : (n : ℚ) ≤ 2 * 2 ^ FixedPoint.precision := by exact_mod_cast small
  rw [magnitude_two, Nat.cast_one, div_one, zpow_neg, zpow_natCast, ← div_eq_mul_inv,
    div_le_iff₀ (by positivity)]
  exact smallRat

theorem isFinite_ofFixedPoint {n : Int} (small : n.natAbs ≤ 2 * 2 ^ FixedPoint.precision) :
    (Binary.ofFixedPoint .binary64 n).isFinite = true := by
  rw [Binary.ofFixedPoint, Binary.round, Binary.isFinite_signed]
  have rank := nearestRank_fixedPoint small
  have finite : 1024 * 2 ^ 52 < Format.binary64.top := by decide
  omega

theorem isZero_ofFixedPoint {n : Int} (nonzero : n ≠ 0) :
    (Binary.ofFixedPoint .binary64 n).isZero = false := by
  have positive := Binary.nearestRank_pos (f := .binary64) (q := -(FixedPoint.precision : Int))
    (by decide) (Int.natAbs_ne_zero.mpr nonzero) (by decide)
  simpa [Binary.ofFixedPoint, Binary.round, Binary.isZero] using positive

theorem isFinite_one : (Binary.ofInt .binary64 1).isFinite = true := by decide

theorem isZero_one : (Binary.ofInt .binary64 1).isZero = false := by decide

/-- The sine of a tiny angle is the angle; the others are read off a fixed point. A quarter turn
swaps the two readings and changes signs, neither of which matters for their sizes. -/
theorem sinCos_cases {x : Real64} (finite : x.isFinite = true) :
    (∃ m q, x.parts? = some (m, q) ∧ (m = 0 ∨ (m.natAbs.log2 : Int) + 1 + q ≤ -27) ∧
        x.sinCos = (x, Binary.ofInt .binary64 1)) ∨
      ∃ sine cosine : Int,
        x.sinCos = (Binary.ofFixedPoint .binary64 sine, Binary.ofFixedPoint .binary64 cosine) ∧
        sine.natAbs ≤ 2 * 2 ^ FixedPoint.precision ∧
        cosine.natAbs ≤ 2 * 2 ^ FixedPoint.precision ∧ (sine ≠ 0 ∨ cosine ≠ 0) := by
  obtain ⟨m, q, parts⟩ := Binary.exists_parts finite
  simp only [Binary.sinCos, parts]
  split
  · next tiny => exact .inl ⟨m, q, rfl, tiny, rfl⟩
  · right
    have short := FixedPoint.quarterTurns_rest_le m.natAbs q
    generalize FixedPoint.quarterTurns m.natAbs q = turns at *
    obtain ⟨quarters, rest⟩ := turns
    obtain ⟨sine, cosine, nonzero⟩ := FixedPoint.sinCos_bounds short
    simp only at short ⊢
    generalize FixedPoint.sinCos rest = values at *
    obtain ⟨s, c⟩ := values
    dsimp only at sine cosine nonzero ⊢
    refine ⟨_, _, rfl, ?_⟩
    generalize 2 ^ FixedPoint.precision = u at *
    split <;> split <;> dsimp only <;> omega

theorem sinCos_regular {x : Real64} (finite : x.isFinite = true) :
    (x.sinCos.1.isFinite = true ∧ x.sinCos.2.isFinite = true) ∧
      (x.sinCos.1.isZero = false ∨ x.sinCos.2.isZero = false) := by
  obtain ⟨-, -, -, -, tiny⟩ | ⟨sine, cosine, read, sineSmall, cosineSmall, nonzero⟩ :=
    sinCos_cases finite
  · rw [tiny]
    exact ⟨⟨finite, isFinite_one⟩, .inr isZero_one⟩
  · rw [read]
    exact ⟨⟨isFinite_ofFixedPoint sineSmall, isFinite_ofFixedPoint cosineSmall⟩,
      nonzero.imp isZero_ofFixedPoint isZero_ofFixedPoint⟩

end Real64

end RasterEdit
