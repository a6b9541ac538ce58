import Mathlib.Data.Rat.Floor
import RasterEdit.Proofs.Geometry.Lengths

/-!
# Exact results

A product is settled by its sign and by the exact magnitude, however the factors share it. A power
of two may therefore move from one factor to the other, and a product that a format can express is
not rounded at all.
-/

set_option autoImplicit false

namespace RasterEdit

namespace Binary

variable {f : Format}

/-! ## Signs and infinities -/

theorem isNegative_mul {x y : Binary f} (left : x.isFinite = true) (right : y.isFinite = true) :
    (x * y).isNegative = (x.isNegative != y.isNegative) := by
  obtain ⟨s, a, ha, rfl⟩ := exists_of_isFinite left
  obtain ⟨t, b, hb, rfl⟩ := exists_of_isFinite right
  rw [mul_finite ha hb]
  rfl

theorem isNegative_div {x y : Binary f} (left : x.isFinite = true) (right : y.isFinite = true)
    (divisor : y.isZero = false) : (x / y).isNegative = (x.isNegative != y.isNegative) := by
  obtain ⟨s, a, ha, rfl⟩ := exists_of_isFinite left
  obtain ⟨t, b, hb, rfl⟩ := exists_of_isFinite right
  have nonzero : b ≠ 0 := by simpa [isZero] using divisor
  rw [div_finite ha hb nonzero]
  rfl

theorem isNaN_mul {x y : Binary f} (left : x.isFinite = true) (right : y.isFinite = true) :
    (x * y).isNaN = false := by
  obtain ⟨s, a, ha, rfl⟩ := exists_of_isFinite left
  obtain ⟨t, b, hb, rfl⟩ := exists_of_isFinite right
  rw [mul_finite ha hb]
  rfl

theorem isNaN_div {x y : Binary f} (left : x.isFinite = true) (right : y.isFinite = true)
    (divisor : y.isZero = false) : (x / y).isNaN = false := by
  obtain ⟨s, a, ha, rfl⟩ := exists_of_isFinite left
  obtain ⟨t, b, hb, rfl⟩ := exists_of_isFinite right
  have nonzero : b ≠ 0 := by simpa [isZero] using divisor
  rw [div_finite ha hb nonzero]
  rfl

theorem eq_infinity {x : Binary f} (number : x.isNaN = false) (infinite : x.isFinite = false) :
    x = infinity x.isNegative := by
  cases x with
  | nan => cases number
  | signed s rank h =>
    have notBelow : ¬ rank < f.top := by simpa [isFinite] using infinite
    obtain rfl : rank = f.top := by omega
    rfl

theorem mul_infinity {x : Binary f} (finite : x.isFinite = true) (nonzero : x.isZero = false)
    (s : Bool) : x * infinity s = infinity (x.isNegative != s) := by
  obtain ⟨t, a, ha, rfl⟩ := exists_of_isFinite finite
  have large : a ≠ 0 := by simpa [isZero] using nonzero
  change Binary.mul _ _ = _
  simp [Binary.mul, infinity, large, f.top_pos.ne', isNegative]

/-- A factor that is infinite already, and factors whose product becomes infinite. -/
theorem mul_eq_of_infinite {x y x' y' : Binary f} (left : x.isFinite = true)
    (nonzero : x.isZero = false) (number : y.isNaN = false) (infinite : y.isFinite = false)
    (left' : x'.isFinite = true) (right' : y'.isFinite = true)
    (overflows : (x' * y').isFinite = false)
    (sign : (x.isNegative != y.isNegative) = (x'.isNegative != y'.isNegative)) :
    x * y = x' * y' := by
  rw [eq_infinity number infinite, mul_infinity left nonzero,
    eq_infinity (isNaN_mul left' right') overflows, isNegative_mul left' right', sign]

theorem infinity_div {y : Binary f} (finite : y.isFinite = true) (s : Bool) :
    infinity s / y = infinity (s != y.isNegative) := by
  obtain ⟨t, b, hb, rfl⟩ := exists_of_isFinite finite
  change Binary.div _ _ = _
  simp [Binary.div, infinity, hb.ne, isNegative]

/-! ## Results settled by their exact values -/

section Precise

variable (precise : 0 < f.precision)

include precise

/-- Rounding looks at the exact magnitude, not at the way it is written. -/
theorem nearestRank_congr {n d n' d' : Nat} {q q' : Int} (divisor : d ≠ 0) (divisor' : d' ≠ 0)
    (same : (n : ℚ) / d * 2 ^ q = (n' : ℚ) / d' * 2 ^ q') :
    nearestRank f n d q = nearestRank f n' d' q' :=
  Nat.le_antisymm (nearestRank_mono precise divisor divisor' same.le)
    (nearestRank_mono precise divisor' divisor same.ge)

theorem mul_congr {x y x' y' : Binary f} (left : x.isFinite = true) (right : y.isFinite = true)
    (left' : x'.isFinite = true) (right' : y'.isFinite = true)
    (sign : (x.isNegative != y.isNegative) = (x'.isNegative != y'.isNegative))
    (same : x.magnitude * y.magnitude = x'.magnitude * y'.magnitude) : x * y = x' * y' := by
  obtain ⟨s, a, ha, rfl⟩ := exists_of_isFinite left
  obtain ⟨t, b, hb, rfl⟩ := exists_of_isFinite right
  obtain ⟨s', a', ha', rfl⟩ := exists_of_isFinite left'
  obtain ⟨t', b', hb', rfl⟩ := exists_of_isFinite right'
  simp only [isNegative] at sign
  have rank : nearestRank f (f.significand a * f.significand b) 1 (f.quantum a + f.quantum b) =
      nearestRank f (f.significand a' * f.significand b') 1 (f.quantum a' + f.quantum b') := by
    apply nearestRank_congr precise one_ne_zero one_ne_zero
    rw [Format.magnitude_mul, Format.magnitude_mul]
    exact same
  rw [mul_finite ha hb, mul_finite ha' hb']
  simp only [round, sign, rank]

section Ranged

variable (ranged : 0 < f.maxExponent)

include ranged

theorem magnitude_mul {x y : Binary f} {rank : Nat} (left : x.isFinite = true)
    (right : y.isFinite = true) (exact : x.magnitude * y.magnitude = f.magnitude rank)
    (below : f.magnitude rank < f.overflow) : (x * y).magnitude = f.magnitude rank := by
  obtain ⟨s, a, ha, rfl⟩ := exists_of_isFinite left
  obtain ⟨t, b, hb, rfl⟩ := exists_of_isFinite right
  rw [mul_finite ha hb]
  refine magnitude_round precise ranged one_ne_zero ?_ below
  rw [Format.magnitude_mul]
  exact exact

end Ranged

end Precise

/-! ## Whole values -/

theorem floor?_of_nonneg {x : Binary f} (finite : x.isFinite = true)
    (sign : x.isNegative = false) : x.floor? = some ⌊x.magnitude⌋ := by
  obtain ⟨s, rank, below, rfl⟩ := exists_of_isFinite finite
  obtain rfl : s = false := sign
  simp only [floor?, parts?, below, ↓reduceIte, Bool.false_eq_true, Option.map_some, magnitude,
    Format.magnitude, Option.some.injEq]
  generalize f.quantum rank = q
  generalize f.significand rank = m
  split
  · next nonneg =>
    rw [← shiftLeft_toNat m nonneg, Int.floor_natCast]
    rfl
  · next negative =>
    have divided : (m : ℚ) * 2 ^ q = ((m : Int) : ℚ) / ((2 ^ (-q).toNat : Nat) : ℚ) := by
      rw [div_eq_mul_inv, Nat.cast_pow, Nat.cast_ofNat, ← zpow_natCast,
        Int.toNat_of_nonneg (by omega), zpow_neg, inv_inv, Int.cast_natCast]
    rw [divided, Rat.floor_intCast_div_natCast, Int.shiftRight_eq_div_pow]

/-- Values that are not below zero are read as the nearest integer. -/
theorem exists_nearestInt {x : Binary f} (finite : x.isFinite = true) (leans : x.Leans false) :
    ∃ k : Nat, x.nearestInt? = some (k : Int) ∧ RoundsTo x.magnitude k := by
  obtain ⟨s, rank, below, rfl⟩ := exists_of_isFinite finite
  have significand : (if s then -(f.significand rank : Int) else f.significand rank) =
      f.significand rank := by
    rcases leans with rfl | rfl
    · rw [Format.significand_zero]
      simp
    · rfl
  simp only [nearestInt?, parts?, below, ↓reduceIte, significand, Option.map_some, magnitude,
    Format.magnitude]
  generalize f.quantum rank = q
  generalize f.significand rank = m
  split
  · next nonneg =>
    refine ⟨m <<< q.toNat, rfl, ?_⟩
    rw [← shiftLeft_toNat m nonneg]
    exact RoundsTo.natCast _
  · next negative =>
    have unsigned : ¬ (m : Int) < 0 := by omega
    have unit : ((1 <<< (-q).toNat : Nat) : ℚ) = 2 ^ (-q) := by
      rw [shiftLeft_toNat 1 (by omega), Nat.cast_one, one_mul]
    have divided : (m : ℚ) * (2 : ℚ) ^ q = m / ((1 <<< (-q).toNat : Nat) : ℚ) := by
      rw [unit, zpow_neg, div_inv_eq_mul]
    rw [if_neg unsigned, Int.natAbs_natCast, divided]
    refine ⟨_, rfl, nearestEven_roundsTo m ?_⟩
    rw [Nat.one_shiftLeft]
    exact Nat.two_pow_pos _

end Binary

open Binary

namespace Real64

theorem isFinite_of_parts {x : Real64} {m q : Int} (parts : x.parts? = some (m, q)) :
    x.isFinite = true := by
  cases x with
  | nan => cases parts
  | signed s rank h =>
    simp only [parts?] at parts
    split at parts
    · next below => exact (isFinite_signed ..).mpr below
    · cases parts

theorem nonpos_of_parts {x : Real64} {m q : Int} (parts : x.parts? = some (m, q))
    (sign : x.isNegative = true) : m ≤ 0 := by
  cases x with
  | nan => cases sign
  | signed s rank h =>
    obtain rfl : s = true := sign
    simp only [parts?] at parts
    split at parts
    · cases parts
      simp
    · cases parts

private theorem toInt?_of_parts {x : Real64} {m q n : Int} (parts : x.parts? = some (m, q))
    (whole : x.toInt? = some n) : (m : ℚ) * 2 ^ q = n := by
  simp only [toInt?, parts, Option.bind_some] at whole
  split at whole
  · next nonneg =>
    cases whole
    rw [Int.shiftLeft_eq]
    push_cast
    rw [← zpow_natCast, Int.toNat_of_nonneg nonneg]
  · next negative =>
    split at whole
    · next exact =>
      cases whole
      generalize m >>> (-q).toNat = n at exact
      rw [← exact, Int.shiftLeft_eq]
      push_cast
      rw [← zpow_natCast, Int.toNat_of_nonneg (by omega : 0 ≤ -q), zpow_neg]
      field_simp
    · cases whole

/-- A value that reads as an integer is that integer; only zero can have either sign. -/
theorem whole_of_toInt? {x : Real64} {n : Int} (whole : x.toInt? = some n) :
    x.isFinite = true ∧ x.magnitude = n.natAbs ∧ (x.isNegative = true → n ≤ 0) := by
  obtain ⟨⟨m, q⟩, parts, -⟩ := Option.bind_eq_some_iff.mp whole
  have value := toInt?_of_parts parts whole
  have scale : (0 : ℚ) < 2 ^ q := by positivity
  refine ⟨isFinite_of_parts parts, ?_, ?_⟩
  · rw [magnitude_of_parts parts, Nat.cast_natAbs, Nat.cast_natAbs, Int.cast_abs, Int.cast_abs,
      ← value, abs_mul, abs_of_pos scale]
  · intro sign
    have nonpos : (m : ℚ) ≤ 0 := by exact_mod_cast nonpos_of_parts parts sign
    have product : (n : ℚ) ≤ 0 := by
      rw [← value]
      exact mul_nonpos_of_nonpos_of_nonneg nonpos scale.le
    exact_mod_cast product

end Real64

end RasterEdit
