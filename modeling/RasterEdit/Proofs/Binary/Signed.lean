import Mathlib.Data.Rat.Floor
import RasterEdit.Proofs.Binary.Order

/-!
# Numbers rounded once

Results of either sign. A product, a sum or a fixed-point number is its exact value rounded once:
the magnitude is rounded, and the sign is the sign of the exact value unless the result is zero.
Finite values are cut to integers exactly.
-/

set_option autoImplicit false

namespace RasterEdit

namespace Binary

variable {f : Format}

/-! ## Signs -/

theorem number_of_leans {negative : Bool} {x : Binary f} (leans : x.Leans negative) :
    x.number = if negative then -x.magnitude else x.magnitude := by
  cases x with
  | nan => cases negative <;> simp [number, magnitude]
  | signed s rank h =>
    rcases leans with rfl | rfl
    · cases s <;> cases negative <;> simp [number, magnitude, f.magnitude_zero]
    · rfl

theorem abs_number (x : Binary f) : |x.number| = x.magnitude := by
  rw [number_of_leans (Leans.isNegative x)]
  split
  · rw [abs_neg, abs_of_nonneg x.magnitude_nonneg]
  · exact abs_of_nonneg x.magnitude_nonneg

theorem number_of_isZero {x : Binary f} (zero : x.isZero = true) : x.number = 0 := by
  rw [← abs_eq_zero, abs_number, magnitude_of_isZero zero]

/-- The significand and the spacing that a finite value is read as. -/
theorem number_of_parts {x : Binary f} {m q : Int} (parts : x.parts? = some (m, q)) :
    x.number = m * 2 ^ q ∧ m.natAbs < 2 * f.hidden ∧ f.leastQuantum ≤ q := by
  cases x with
  | nan => cases parts
  | signed s rank h =>
    simp only [parts?] at parts
    split at parts
    · cases parts
      have least := f.leastQuantum_le rank
      have small := f.significand_lt rank
      cases s with
      | false => exact ⟨rfl, small, least⟩
      | true => exact ⟨by simp [number, Format.magnitude], by simpa using small, least⟩
    · cases parts

theorem isZero_iff_number (precise : 0 < f.precision) {x : Binary f} (finite : x.isFinite = true) :
    x.isZero = true ↔ x.number = 0 := by
  constructor
  · exact number_of_isZero
  · intro none
    cases x with
    | nan => cases finite
    | signed s rank h =>
      rw [← abs_eq_zero, abs_number] at none
      rw [isZero_signed]
      exact (Format.magnitude_eq_zero_iff precise).mp none

theorem magnitude_of_parts {x : Binary f} {m q : Int} (parts : x.parts? = some (m, q)) :
    x.magnitude = m.natAbs * 2 ^ q := by
  rw [← abs_number, (number_of_parts parts).1, abs_mul,
    abs_of_pos (by positivity : (0 : ℚ) < 2 ^ q), Nat.cast_natAbs, Int.cast_abs]

/-- The place of the leading bit bounds a magnitude. -/
theorem mul_zpow_le_log2 {K : Type} [Field K] [LinearOrder K] [IsStrictOrderedRing K] (m : Nat)
    (q : Int) : (m : K) * 2 ^ q ≤ 2 ^ ((m.log2 : Int) + 1 + q) := by
  have significand : (m : K) ≤ 2 ^ ((m.log2 : Int) + 1) := by
    exact_mod_cast (Nat.lt_log2_self (n := m)).le
  calc (m : K) * 2 ^ q ≤ 2 ^ ((m.log2 : Int) + 1) * 2 ^ q := by gcongr
    _ = 2 ^ ((m.log2 : Int) + 1 + q) := (zpow_add₀ two_ne_zero _ _).symm

theorem isFinite_neg (x : Binary f) : (-x).isFinite = x.isFinite := by
  cases x <;> rfl

theorem number_neg (x : Binary f) : (-x).number = -x.number := by
  cases x with
  | nan => exact neg_zero.symm
  | signed s rank h =>
    cases s with
    | false => rfl
    | true => exact (neg_neg _).symm

theorem number_abs (x : Binary f) : x.abs.number = |x.number| := by
  rw [abs_number, ← magnitude_abs]
  exact number_of_leans (Leans.abs x)

theorem Same.number_eq {x y : Binary f} (same : Same x y) : x.number = y.number := by
  rcases same with rfl | ⟨left, right⟩
  · rfl
  · rw [number_of_isZero left, number_of_isZero right]

/-! ## Integers -/

theorem floor?_eq {x : Binary f} (finite : x.isFinite = true) : x.floor? = some ⌊x.number⌋ := by
  obtain ⟨m, q, parts⟩ := exists_parts finite
  rw [(number_of_parts parts).1]
  simp only [floor?, parts, Option.map_some, Option.some.injEq]
  split
  · next whole =>
    have integer : (m : ℚ) * 2 ^ q = (m <<< q.toNat : Int) := by
      rw [Int.shiftLeft_eq, Int.cast_mul, Int.cast_pow, Int.cast_ofNat, ← zpow_natCast,
        Int.toNat_of_nonneg whole]
    rw [integer, Int.floor_intCast]
  · next fractional =>
    have divided : (m : ℚ) * 2 ^ q = (m : ℚ) / ((2 ^ (-q).toNat : Nat) : ℚ) := by
      rw [div_eq_mul_inv, Nat.cast_pow, Nat.cast_ofNat, ← zpow_natCast,
        Int.toNat_of_nonneg (by omega), zpow_neg, inv_inv]
    rw [divided, Rat.floor_intCast_div_natCast, Int.shiftRight_eq_div_pow]

theorem truncate?_of_number {x : Binary f} (finite : x.isFinite = true) {n : Int}
    (whole : x.number = n) : x.truncate? = some n := by
  obtain ⟨m, q, parts⟩ := exists_parts finite
  rw [(number_of_parts parts).1] at whole
  simp only [truncate?, parts, Option.map_some, Option.some.injEq]
  split
  · next nonneg =>
    rw [← Int.cast_inj (α := ℚ), ← whole, Int.shiftLeft_eq, Int.cast_mul, Int.cast_pow,
      Int.cast_ofNat, ← zpow_natCast, Int.toNat_of_nonneg nonneg]
  · next fractional =>
    have multiple : m = n * ((1 <<< (-q).toNat : Nat) : Int) := by
      rw [← Int.cast_inj (α := ℚ), Int.cast_mul, ← whole, Nat.one_shiftLeft, Int.cast_natCast,
        Nat.cast_pow, Nat.cast_ofNat, ← zpow_natCast, Int.toNat_of_nonneg (by omega), mul_assoc,
        ← zpow_add₀ two_ne_zero, add_neg_cancel, zpow_zero, mul_one]
    have nonzero : ((1 <<< (-q).toNat : Nat) : Int) ≠ 0 := by
      rw [Nat.one_shiftLeft]
      positivity
    rw [multiple, Int.mul_tdiv_cancel _ nonzero]

/-! ## Rounded numbers -/

/-- The number `v` does not overflow and is rounded to `x`. A zero may have either sign. -/
structure SignedRounded (x : Binary f) (v : ℚ) : Prop where
  rounded : Rounded x.abs |v|
  leans : x.Leans (decide (v < 0))

namespace SignedRounded

variable {x : Binary f} {v : ℚ}

theorem isFinite (signed : SignedRounded x v) : x.isFinite = true := by
  rw [← isFinite_abs]
  exact signed.rounded.isFinite

theorem number_eq (signed : SignedRounded x v) :
    x.number = if v < 0 then -x.abs.magnitude else x.abs.magnitude := by
  rw [number_of_leans signed.leans, magnitude_abs]
  simp only [decide_eq_true_eq]

/-- The sign is never lost, so the error is that of the magnitude. -/
theorem abs_sub_eq (signed : SignedRounded x v) : |x.number - v| = |x.abs.magnitude - (|v|)| := by
  rw [signed.number_eq]
  split
  · next negative =>
    rw [abs_of_neg negative, ← abs_neg]
    congr 1
    ring
  · next nonneg => rw [abs_of_nonneg (not_lt.mp nonneg)]

theorem error_of_lt (signed : SignedRounded x v) {q : Int} (inRange : f.leastQuantum ≤ q)
    (below : |v| < 2 ^ (q + f.precision)) : |x.number - v| ≤ 1 / 2 * 2 ^ q := by
  rw [signed.abs_sub_eq]
  exact signed.rounded.error_of_lt inRange below

theorem error (signed : SignedRounded x v)
    (normal : 2 ^ (f.leastQuantum + f.precision - 1) ≤ |v|) :
    |x.number - v| ≤ |v| / 2 ^ f.precision := by
  rw [signed.abs_sub_eq]
  exact signed.rounded.error normal

/-- Below the normal numbers the spacing does not fall any further. -/
theorem error_le (signed : SignedRounded x v) :
    |x.number - v| ≤ |v| / 2 ^ f.precision + 1 / 2 * 2 ^ f.leastQuantum := by
  have share : 0 ≤ |v| / 2 ^ f.precision := by positivity
  have least : (0 : ℚ) ≤ 1 / 2 * 2 ^ f.leastQuantum := by positivity
  rcases le_or_gt (2 ^ (f.leastQuantum + f.precision - 1)) |v| with normal | subnormal
  · linarith [signed.error normal]
  · have below : |v| < 2 ^ (f.leastQuantum + f.precision) :=
      subnormal.trans_le (zpow_le_zpow_right₀ one_le_two (by omega))
    linarith [signed.error_of_lt le_rfl below]

/-- A number that the format can express is not changed. -/
theorem exact {m : Nat} {q : Int} (signed : SignedRounded x v) (magnitude : |v| = m * 2 ^ q)
    (small : m < 2 * f.hidden) (inRange : f.leastQuantum ≤ q) : x.number = v := by
  have rounded := signed.rounded
  rw [magnitude] at rounded
  have same := rounded.exact small inRange
  rw [← sub_eq_zero, ← abs_eq_zero, signed.abs_sub_eq, same, magnitude, sub_self, abs_zero]

theorem number_nonneg (signed : SignedRounded x v) (nonneg : 0 ≤ v) : 0 ≤ x.number := by
  rw [signed.number_eq, if_neg nonneg.not_gt]
  exact magnitude_nonneg _

/-- Rounding does not bring a value below one that the format has. -/
theorem abs_number_ge (signed : SignedRounded x v) {y : Binary f} (finite : y.isFinite = true)
    (le : |y.number| ≤ |v|) : |y.number| ≤ |x.number| := by
  obtain ⟨m, q, parts⟩ := exists_parts finite
  obtain ⟨-, small, least⟩ := number_of_parts parts
  have value : |y.number| = m.natAbs * 2 ^ q := by rw [abs_number, magnitude_of_parts parts]
  have above := signed.rounded.le_of_ge small least (value ▸ le)
  rwa [← value, magnitude_abs, ← abs_number] at above

theorem number_le {m : Nat} {q : Int} (signed : SignedRounded x v) (small : m < 2 * f.hidden)
    (inRange : f.leastQuantum ≤ q) (nonneg : 0 ≤ v) (le : v ≤ m * 2 ^ q) :
    x.number ≤ m * 2 ^ q := by
  rw [signed.number_eq, if_neg nonneg.not_gt]
  exact signed.rounded.le_of_le small inRange (by rwa [abs_of_nonneg nonneg])

theorem mono {y : Binary f} {w : ℚ} (left : SignedRounded x v) (right : SignedRounded y w)
    (le : v ≤ w) : x.number ≤ y.number := by
  rw [left.number_eq, right.number_eq]
  rcases lt_or_ge v 0 with negative | nonneg
  · rw [if_pos negative]
    rcases lt_or_ge w 0 with otherNegative | otherNonneg
    · rw [if_pos otherNegative, neg_le_neg_iff]
      apply right.rounded.mono left.rounded
      rwa [abs_of_neg negative, abs_of_neg otherNegative, neg_le_neg_iff]
    · rw [if_neg otherNonneg.not_gt]
      linarith [x.abs.magnitude_nonneg, y.abs.magnitude_nonneg]
  · rw [if_neg nonneg.not_gt, if_neg (nonneg.trans le).not_gt]
    apply left.rounded.mono right.rounded
    rwa [abs_of_nonneg nonneg, abs_of_nonneg (nonneg.trans le)]

end SignedRounded

/-! ## Operations -/

section Operations

variable (precise : 0 < f.precision) (ranged : 0 < f.maxExponent)

include precise ranged

theorem signedRounded_round (s : Bool) {n d : Nat} {q : Int} (divisor : d ≠ 0)
    (below : (n : ℚ) / d * 2 ^ q < f.overflow) :
    SignedRounded (round f s n d q)
      (if s then -((n : ℚ) / d * 2 ^ q) else (n : ℚ) / d * 2 ^ q) := by
  have nonneg : 0 ≤ (n : ℚ) / d * 2 ^ q := by positivity
  have magnitude : |if s then -((n : ℚ) / d * 2 ^ q) else (n : ℚ) / d * 2 ^ q| =
      (n : ℚ) / d * 2 ^ q := by
    split
    · rw [abs_neg, abs_of_nonneg nonneg]
    · exact abs_of_nonneg nonneg
  constructor
  · rw [magnitude]
    exact ⟨precise, ranged, below, n, d, q, divisor, rfl, rfl⟩
  · by_cases zero : n = 0
    · rw [zero]
      exact .inl (nearestRank_zero f d q)
    · have positive : 0 < (n : ℚ) / d * 2 ^ q := by
        have numerator := Nat.pos_of_ne_zero zero
        have denominator := Nat.pos_of_ne_zero divisor
        positivity
      right
      cases s with
      | false => simp [nonneg]
      | true => simp [positive]

/-- What the format can express is rounded to itself. -/
theorem round_exact (s : Bool) {n : Nat} {q : Int} (small : n < 2 * f.hidden)
    (inRange : f.leastQuantum ≤ q) (below : (n : ℚ) * 2 ^ q < f.overflow) :
    (round f s n 1 q).isFinite = true ∧
      (round f s n 1 q).number = if s then -((n : ℚ) * 2 ^ q) else n * 2 ^ q := by
  have signed := signedRounded_round precise ranged s (n := n) (q := q) one_ne_zero
    (by rwa [Nat.cast_one, div_one])
  rw [Nat.cast_one, div_one] at signed
  refine ⟨signed.isFinite, signed.exact (m := n) ?_ small inRange⟩
  have nonneg : 0 ≤ (n : ℚ) * 2 ^ q := by positivity
  split
  · rw [abs_neg, abs_of_nonneg nonneg]
  · exact abs_of_nonneg nonneg

/-- An integer in units of a power of two. -/
theorem signedRounded_units {n q : Int} (below : |(n : ℚ) * 2 ^ q| < f.overflow) :
    SignedRounded (round f (n < 0) n.natAbs 1 q) (n * 2 ^ q) := by
  have scale : (0 : ℚ) < 2 ^ q := by positivity
  have magnitude : (n.natAbs : ℚ) / (1 : Nat) * 2 ^ q = |(n : ℚ) * 2 ^ q| := by
    rw [Nat.cast_one, div_one, Nat.cast_natAbs, Int.cast_abs, abs_mul, abs_of_pos scale]
  have signed := signedRounded_round precise ranged (n < 0) (n := n.natAbs) (q := q) one_ne_zero
    (by rwa [magnitude])
  rw [magnitude] at signed
  convert signed using 1
  split
  · next negative =>
    have castNegative : (n : ℚ) < 0 := by exact_mod_cast of_decide_eq_true negative
    rw [abs_of_nonpos (mul_nonpos_of_nonpos_of_nonneg castNegative.le scale.le), neg_neg]
  · next nonneg =>
    have castNonneg : (0 : ℚ) ≤ n := by
      exact_mod_cast not_lt.mp fun negative => nonneg (decide_eq_true negative)
    rw [abs_of_nonneg (mul_nonneg castNonneg scale.le)]

theorem signedRounded_ofInt {n : Int} (below : |(n : ℚ)| < f.overflow) :
    SignedRounded (ofInt f n) n := by
  have signed := signedRounded_units precise ranged (n := n) (q := 0)
    (by rwa [zpow_zero, mul_one])
  rwa [zpow_zero, mul_one] at signed

variable {x y : Binary f} (left : x.isFinite = true) (right : y.isFinite = true)

include left right

theorem signedRounded_mul (below : |x.number * y.number| < f.overflow) :
    SignedRounded (x * y) (x.number * y.number) := by
  obtain ⟨s, a, ha, rfl⟩ := exists_of_isFinite left
  obtain ⟨t, b, hb, rfl⟩ := exists_of_isFinite right
  have product := f.magnitude_mul a b
  rw [abs_mul, abs_number, abs_number] at below
  change f.magnitude a * f.magnitude b < _ at below
  have signed := signedRounded_round precise ranged (s != t) (q := f.quantum a + f.quantum b)
    one_ne_zero (by rwa [product])
  rw [product, ← mul_finite ha hb] at signed
  convert signed using 1
  cases s <;> cases t <;> simp [number]

theorem signedRounded_div (nonzero : y.number ≠ 0) (below : |x.number / y.number| < f.overflow) :
    SignedRounded (x / y) (x.number / y.number) := by
  obtain ⟨s, a, ha, rfl⟩ := exists_of_isFinite left
  obtain ⟨t, b, hb, rfl⟩ := exists_of_isFinite right
  have divisor : b ≠ 0 := by
    rintro rfl
    exact nonzero (number_of_isZero (by simp))
  have quotient := f.magnitude_div a b
  rw [abs_div, abs_number, abs_number] at below
  change f.magnitude a / f.magnitude b < _ at below
  have signed := signedRounded_round precise ranged (s != t) (q := f.quantum a - f.quantum b)
    (Format.significand_pos divisor).ne' (by rwa [quotient])
  rw [quotient, ← div_finite ha hb divisor] at signed
  convert signed using 1
  cases s <;> cases t <;> simp [number, neg_div, div_neg]

theorem signedRounded_add (below : |x.number + y.number| < f.overflow) :
    SignedRounded (x + y) (x.number + y.number) := by
  obtain ⟨s, a, ha, rfl⟩ := exists_of_isFinite left
  obtain ⟨t, b, hb, rfl⟩ := exists_of_isFinite right
  have sum := add_finite (s := s) (t := t) ha hb
  generalize common : min (f.quantum a) (f.quantum b) = q at sum
  have units (s : Bool) {a : Nat} (h : a ≤ f.top) (le : q ≤ f.quantum a) :
      (signedUnits s (units f a q) : ℚ) * 2 ^ q = (signed s a h).number := by
    cases s with
    | false => exact units_value f le
    | true =>
      change ((-(units f a q : Int) : Int) : ℚ) * 2 ^ q = -f.magnitude a
      rw [← units_value f le]
      push_cast
      ring
  have exact : (signed s a ha.le).number + (signed t b hb.le).number =
      (signedUnits s (Binary.units f a q) + signedUnits t (Binary.units f b q) : Int) * 2 ^ q := by
    rw [← units s ha.le (by omega), ← units t hb.le (by omega)]
    push_cast
    ring
  rw [exact] at below ⊢
  rw [sum]
  simp only
  generalize signedUnits s (Binary.units f a q) + signedUnits t (Binary.units f b q) = total at *
  split
  · next none =>
    rw [none, Int.cast_zero, zero_mul]
    have origin := signedRounded_ofInt precise ranged (f := f) (n := 0) (by
      rw [Int.cast_zero, abs_zero]
      exact f.overflow_pos)
    have zeroAbs : (zero (s && t) : Binary f).abs = (ofInt f 0).abs := by
      simp [zero, ofInt, round, nearestRank_zero, Binary.abs]
    rw [Int.cast_zero] at origin
    exact ⟨zeroAbs ▸ origin.rounded, .inl rfl⟩
  · exact signedRounded_units precise ranged below

theorem signedRounded_sub (below : |x.number - y.number| < f.overflow) :
    SignedRounded (x - y) (x.number - y.number) := by
  rw [sub_eq_add_neg, ← number_neg] at below ⊢
  exact signedRounded_add precise ranged left ((isFinite_neg y).trans right) below

omit left right in
/-- Multiplying by a number that is not negative keeps the order. -/
theorem number_mul_mono {z : Binary f} (nonneg : 0 ≤ z.number) (le : x.number ≤ y.number)
    (leftProduct : (z * x).isFinite = true) (rightProduct : (z * y).isFinite = true) :
    (z * x).number ≤ (z * y).number := by
  have finite := isFinite_left_of_mul leftProduct
  have signed {x : Binary f} (product : (z * x).isFinite = true) :
      SignedRounded (z * x) (z.number * x.number) := by
    have other := isFinite_right_of_mul product
    rw [isFinite_mul precise ranged finite other, ← abs_number, ← abs_number, ← abs_mul] at product
    exact signedRounded_mul precise ranged finite other product
  exact (signed leftProduct).mono (signed rightProduct) (mul_le_mul_of_nonneg_left le nonneg)

/-- Dividing by a positive number keeps the order. -/
theorem number_div_mono {z : Binary f} (finite : z.isFinite = true) (positive : 0 < z.number)
    (le : x.number ≤ y.number) (leftQuotient : (x / z).isFinite = true)
    (rightQuotient : (y / z).isFinite = true) : (x / z).number ≤ (y / z).number := by
  have nonzero : z.isZero = false := by
    rw [← Bool.not_eq_true, isZero_iff_number precise finite]
    exact positive.ne'
  have signed {x : Binary f} (xFinite : x.isFinite = true) (quotient : (x / z).isFinite = true) :
      SignedRounded (x / z) (x.number / z.number) := by
    rw [isFinite_div precise ranged xFinite finite nonzero, ← abs_number, ← abs_number,
      ← abs_div] at quotient
    exact signedRounded_div precise ranged xFinite finite positive.ne' quotient
  exact (signed left leftQuotient).mono (signed right rightQuotient)
    (div_le_div_of_nonneg_right le positive.le)

end Operations

/-- A finite number in another format, rounded there. -/
theorem signedRounded_toFormat {g : Format} (precise : 0 < g.precision)
    (ranged : 0 < g.maxExponent) {x : Binary f} (finite : x.isFinite = true)
    (below : |x.number| < g.overflow) : SignedRounded (x.toFormat g) x.number := by
  obtain ⟨s, rank, inside, rfl⟩ := exists_of_isFinite finite
  have value : (f.significand rank : ℚ) / (1 : Nat) * 2 ^ f.quantum rank = f.magnitude rank := by
    rw [Nat.cast_one, div_one]
    rfl
  rw [abs_number] at below
  change f.magnitude rank < g.overflow at below
  have signed := signedRounded_round precise ranged s (d := 1) one_ne_zero (by rwa [value])
  rw [value] at signed
  rw [toFormat, if_neg inside.ne]
  exact signed

/-! ## Integers that are not crossed -/

section Bounds

variable {x : Binary f} {v : ℚ} {a b : Nat} (least : f.leastQuantum ≤ 0) (low : a ≤ v)
  (high : v ≤ b) (small : b < 2 * f.hidden)

include least low high small

/-- Rounding does not cross an integer that the format has. -/
theorem Rounded.bounds (rounded : Rounded x v) : a ≤ x.number ∧ x.number ≤ b := by
  have ordered : a ≤ b := by exact_mod_cast low.trans high
  rw [rounded.number_eq]
  constructor
  · have ge := rounded.le_of_ge (ordered.trans_lt small) least (by rwa [zpow_zero, mul_one])
    rwa [zpow_zero, mul_one] at ge
  · have le := rounded.le_of_le small least (by rwa [zpow_zero, mul_one])
    rwa [zpow_zero, mul_one] at le

theorem SignedRounded.bounds (signed : SignedRounded x v) : a ≤ x.number ∧ x.number ≤ b := by
  have nonneg : 0 ≤ v := a.cast_nonneg.trans low
  have rounded := signed.rounded
  rw [abs_of_nonneg nonneg] at rounded
  have bounds := rounded.bounds least low high small
  have same := signed.number_eq
  rw [if_neg nonneg.not_gt, ← rounded.number_eq] at same
  rwa [← same] at bounds

end Bounds

end Binary

end RasterEdit
