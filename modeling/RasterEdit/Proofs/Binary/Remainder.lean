import RasterEdit.Proofs.Binary.Signed

/-!
# Remainders

What is left of a finite number after whole multiples of a modulus is expressed exactly, with the
sign of the number. Only a negative rest is rounded, when the modulus is added to bring it into
range, and that sum may be rounded up to the modulus itself.
-/

set_option autoImplicit false

namespace RasterEdit

open Binary

namespace Real64

variable {x : Real64} {modulus : Nat}

theorem abs_number_lt (finite : x.isFinite = true) :
    |x.number| + 1 / 2 < Format.binary64.overflow := by
  rw [abs_number]
  exact magnitude_add_half_lt finite

theorem number_ofInt {n : Int} (small : n.natAbs < 2 ^ 53) : (Real64.ofInt n).number = n := by
  have magnitude : |(n : ℚ)| = n.natAbs * 2 ^ (0 : Int) := by
    rw [zpow_zero, mul_one, Nat.cast_natAbs, Int.cast_abs]
  have below : |(n : ℚ)| < Format.binary64.overflow := by
    rw [magnitude, zpow_zero, mul_one]
    calc (n.natAbs : ℚ) < 2 ^ 53 := by exact_mod_cast small
      _ < Format.binary64.overflow := two_pow_lt_overflow (by decide)
  exact (signedRounded_ofInt (by decide) (by decide) below).exact magnitude small (by decide)

theorem number_zero : (0 : Real64).number = 0 := number_of_isZero rfl

theorem number_one : (1 : Real64).number = 1 := by
  exact_mod_cast number_ofInt (n := 1) (by decide)

/-- The significand of the rest of a magnitude, in units of the spacing or of one. -/
private theorem exists_rest (m : Nat) (q : Int) (positive : 0 < modulus) :
    ∃ n k : Nat, (if 0 ≤ q then (m <<< q.toNat) % modulus
        else m % (modulus * 1 <<< (-q).toNat)) = n ∧
      (m : ℚ) * 2 ^ q = modulus * k + n * 2 ^ min q 0 ∧ (n : ℚ) * 2 ^ min q 0 < modulus ∧
      (n < modulus ∨ n ≤ m) := by
  split
  · next whole =>
    have split := Nat.div_add_mod (m <<< q.toNat) modulus
    have rest := Nat.mod_lt (m <<< q.toNat) positive
    refine ⟨_, m <<< q.toNat / modulus, rfl, ?_, ?_, .inl rest⟩
    · rw [← shiftLeft_toNat m whole, min_eq_right whole, zpow_zero, mul_one]
      exact_mod_cast split.symm
    · rw [min_eq_right whole, zpow_zero, mul_one]
      exact_mod_cast rest
  · next fractional =>
    have finer : min q 0 = q := min_eq_left (by omega)
    have unit : ((1 <<< (-q).toNat : Nat) : ℚ) * 2 ^ q = 1 := by
      rw [shiftLeft_toNat 1 (by omega), Nat.cast_one, one_mul, ← zpow_add₀ two_ne_zero,
        neg_add_cancel, zpow_zero]
    have units : 0 < 1 <<< (-q).toNat := by
      rw [Nat.one_shiftLeft]
      exact Nat.two_pow_pos _
    generalize 1 <<< (-q).toNat = u at unit units ⊢
    have split := Nat.div_add_mod m (modulus * u)
    have rest := Nat.mod_lt m (Nat.mul_pos positive units)
    have scale : (0 : ℚ) < 2 ^ q := by positivity
    refine ⟨_, m / (modulus * u), rfl, ?_, ?_, .inr (Nat.mod_le ..)⟩
    · rw [finer]
      calc (m : ℚ) * 2 ^ q
          = ((modulus * u * (m / (modulus * u)) + m % (modulus * u) : Nat) : ℚ) * 2 ^ q := by
            rw [split]
        _ = modulus * (m / (modulus * u) : Nat) * (u * 2 ^ q) +
            (m % (modulus * u) : Nat) * 2 ^ q := by
            push_cast
            ring
        _ = _ := by rw [unit, mul_one]
    · rw [finer]
      calc ((m % (modulus * u) : Nat) : ℚ) * 2 ^ q < (modulus * u : Nat) * 2 ^ q := by
            gcongr
        _ = modulus * (u * 2 ^ q) := by
            push_cast
            ring
        _ = modulus := by rw [unit, mul_one]

/-- The rest is exact and has the sign of the number; the three cases are what becomes of it. -/
theorem wrap_cases (finite : x.isFinite = true) (positive : 0 < modulus)
    (small : modulus < 2 ^ 53) :
    ∃ (k : Int) (rest : Real64), rest.isFinite = true ∧ |rest.number| < modulus ∧
      x.number = modulus * k + rest.number ∧
      ((rest.number = 0 ∧ x.wrap modulus = zero false) ∨
        (0 < rest.number ∧ x.wrap modulus = rest) ∨
        (rest.number < 0 ∧ x.wrap modulus = rest + Real64.ofInt modulus)) := by
  obtain ⟨m, q, parts⟩ := exists_parts finite
  obtain ⟨number, significand, least⟩ := number_of_parts parts
  obtain ⟨n, k, read, split, below, narrow⟩ := exists_rest m.natAbs q positive
  have hidden : 2 * Format.binary64.hidden = 2 ^ 53 := rfl
  have overflow : (n : ℚ) * 2 ^ min q 0 < Format.binary64.overflow :=
    calc (n : ℚ) * 2 ^ min q 0 < modulus := below
      _ < 2 ^ 53 := by exact_mod_cast small
      _ < Format.binary64.overflow := two_pow_lt_overflow (by decide)
  obtain ⟨restFinite, rest⟩ := round_exact (f := .binary64) (by decide) (by decide) (m < 0)
    (n := n) (by omega) (le_min least (by decide)) overflow
  have wrapped : x.wrap modulus =
      if n = 0 then zero false
      else if m < 0 then round .binary64 (m < 0) n 1 (min q 0) + Real64.ofInt modulus
      else round .binary64 (m < 0) n 1 (min q 0) := by
    simp only [Binary.wrap, parts, read]
    rfl
  have nonneg : (0 : ℚ) ≤ n * 2 ^ min q 0 := by positivity
  have vanishes : n * 2 ^ min q 0 = (0 : ℚ) ↔ n = 0 := by
    rw [mul_eq_zero_iff_right (by positivity), Nat.cast_eq_zero]
  rw [wrapped]
  by_cases negative : m < 0
  · have cast : (m : ℚ) = -m.natAbs := by
      rw [Nat.cast_natAbs, abs_of_neg negative]
      push_cast
      ring
    simp only [negative, decide_true, ↓reduceIte] at restFinite rest ⊢
    refine ⟨-k, _, restFinite, ?_, ?_, ?_⟩
    · rwa [rest, abs_neg, abs_of_nonneg nonneg]
    · rw [rest, number, cast, neg_mul, split]
      push_cast
      ring
    · rw [rest]
      by_cases none : n = 0
      · exact .inl ⟨by rw [neg_eq_zero, vanishes, none], if_pos none⟩
      · have more := lt_of_le_of_ne nonneg (Ne.symm (vanishes.not.mpr none))
        exact .inr (.inr ⟨neg_lt_zero.mpr more, if_neg none⟩)
  · have cast : (m : ℚ) = m.natAbs := by
      rw [Nat.cast_natAbs, abs_of_nonneg (not_lt.mp negative)]
    simp only [negative, decide_false, Bool.false_eq_true, ↓reduceIte] at restFinite rest ⊢
    refine ⟨k, _, restFinite, ?_, ?_, ?_⟩
    · rwa [rest, abs_of_nonneg nonneg]
    · rw [rest, number, cast, split, Int.cast_natCast]
    · rw [rest]
      by_cases none : n = 0
      · exact .inl ⟨by rw [vanishes, none], if_pos none⟩
      · have more := lt_of_le_of_ne nonneg (Ne.symm (vanishes.not.mpr none))
        exact .inr (.inl ⟨more, if_neg none⟩)

/-- The sum that brings a negative rest into range is rounded; up to 512 that moves it by at most
half of the spacing below `512`. -/
theorem wrap_near (finite : x.isFinite = true) (positive : 0 < modulus) (small : modulus ≤ 512) :
    (x.wrap modulus).isFinite = true ∧
      (0 ≤ (x.wrap modulus).number ∧ (x.wrap modulus).number ≤ modulus) ∧
      ∃ k : Int, |x.number - modulus * k - (x.wrap modulus).number| ≤ 1 / 2 ^ 45 := by
  obtain ⟨k, rest, restFinite, short, split, ⟨none, read⟩ | ⟨more, read⟩ | ⟨less, read⟩⟩ :=
    wrap_cases finite positive (by omega)
  · rw [read, number_of_isZero rfl]
    refine ⟨rfl, ⟨le_rfl, Nat.cast_nonneg modulus⟩, k, ?_⟩
    rw [split, none, add_zero, sub_self, sub_zero, abs_zero]
    positivity
  · rw [abs_of_pos more] at short
    rw [read]
    refine ⟨restFinite, ⟨more.le, short.le⟩, k, ?_⟩
    rw [split, add_sub_cancel_left, sub_self, abs_zero]
    positivity
  · rw [abs_of_neg less] at short
    have turn : (Real64.ofInt modulus).number = modulus := number_ofInt (by omega)
    have turnFinite : (Real64.ofInt modulus).isFinite = true := isFinite_of_small (by omega)
    have nonneg : 0 ≤ rest.number + (Real64.ofInt modulus).number := by linarith
    have atMost : rest.number + (Real64.ofInt modulus).number ≤ modulus := by linarith
    have modulusLe : (modulus : ℚ) ≤ 512 := by exact_mod_cast small
    have sum := signedRounded_add (f := .binary64) (by decide) (by decide) restFinite turnFinite (by
      rw [abs_of_nonneg nonneg]
      calc _ ≤ (512 : ℚ) := atMost.trans modulusLe
        _ < 2 ^ 10 := by norm_num
        _ < Format.binary64.overflow := two_pow_lt_overflow (by decide))
    rw [read]
    refine ⟨sum.isFinite, ⟨sum.number_nonneg nonneg, ?_⟩, k - 1, ?_⟩
    · have whole : (modulus : ℚ) * 2 ^ (0 : Int) = modulus := by rw [zpow_zero, mul_one]
      rw [← whole] at atMost ⊢
      exact sum.number_le (by change modulus < 2 ^ 53; omega) (by decide) nonneg atMost
    · have error := sum.error_of_lt (q := -44) (by decide) (by
        rw [abs_of_nonneg nonneg]
        calc _ < (modulus : ℚ) := by linarith
          _ ≤ 512 := modulusLe
          _ = 2 ^ (-44 + (Format.binary64.precision : Int)) := by norm_num [Format.binary64])
      rw [abs_sub_comm]
      push_cast
      calc |(rest + Real64.ofInt modulus).number - (x.number - modulus * (k - 1))|
          = |(rest + Real64.ofInt modulus).number -
              (rest.number + (Real64.ofInt modulus).number)| := by
            rw [split, turn]
            congr 1
            ring
        _ ≤ 1 / 2 * 2 ^ (-44 : Int) := error
        _ = 1 / 2 ^ 45 := by norm_num

/-- Whole multiples of the modulus leave nothing. -/
theorem wrap_multiple (finite : x.isFinite = true) (positive : 0 < modulus)
    (small : modulus < 2 ^ 53) {k : Int} (whole : x.number = modulus * k) :
    x.wrap modulus = zero false := by
  obtain ⟨j, rest, -, short, split, ⟨-, read⟩ | ⟨more, -⟩ | ⟨less, -⟩⟩ :=
    wrap_cases finite positive small
  · exact read
  all_goals
    have multiple : rest.number = modulus * (k - j : Int) := by
      push_cast
      linarith
    have modulusPos : (0 : ℚ) < modulus := by exact_mod_cast positive
    rw [multiple, abs_mul, abs_of_pos modulusPos, mul_lt_iff_lt_one_right modulusPos] at short
    have none : k - j = 0 := by
      rw [← Int.abs_lt_one_iff]
      exact_mod_cast short
    have vanishes : rest.number = 0 := by rw [multiple, none, Int.cast_zero, mul_zero]
    first
      | exact absurd vanishes more.ne'
      | exact absurd vanishes less.ne

end Real64

end RasterEdit
