import RasterEdit.Proofs.Binary.Exact
import RasterEdit.Proofs.Binary.Order
import RasterEdit.Raster.Depth

/-!
# Rescaled numbers

A rescaled sample is rounded twice, to a format and then to an integer. Both roundings keep the
order and stay near the exact value, so a byte always holds the result. Integers of up to 32 bits
keep so far from the halves that the first rounding is not noticed.
-/

set_option autoImplicit false

namespace RasterEdit

open Binary

/-- A format that expresses the quarters up to 256 and so keeps them where they are. -/
structure Format.HoldsBytes (f : Format) : Prop where
  precision_le : 10 ≤ f.precision
  maxExponent_le : 8 ≤ f.maxExponent

namespace Format.HoldsBytes

variable {f : Format} (holds : f.HoldsBytes)

include holds

theorem precise : 0 < f.precision := Nat.lt_of_lt_of_le (by decide) holds.precision_le

theorem ranged : 0 < f.maxExponent := Nat.lt_of_lt_of_le (by decide) holds.maxExponent_le

theorem leastQuantum_le : f.leastQuantum ≤ -2 := by
  have precision_le := holds.precision_le
  have maxExponent_le := holds.maxExponent_le
  unfold leastQuantum
  omega

theorem lt_hidden {m : Nat} (small : m < 1024) : m < 2 * f.hidden := by
  have power : 2 ^ 9 ≤ 2 ^ (f.precision - 1) :=
    Nat.pow_le_pow_right two_pos (by have := holds.precision_le; omega)
  rw [hidden, Nat.one_shiftLeft]
  omega

theorem lt_overflow {v : ℚ} (small : v < 256) : v < f.overflow := by
  have power : (2 : ℚ) ^ (8 : Int) ≤ 2 ^ (f.maxExponent : Int) :=
    zpow_le_zpow_right₀ one_le_two (by have := holds.maxExponent_le; omega)
  calc v < 2 ^ (8 : Int) := by norm_num; exact small
    _ ≤ 2 ^ (f.maxExponent : Int) := power
    _ ≤ f.overflow := f.overflow_bounds.1

theorem rounded_small {n : Nat} (small : n < 256) : Rounded (Binary.ofInt f n) n := by
  apply rounded_ofNat holds.precise holds.ranged
  exact holds.lt_overflow (by exact_mod_cast small)

theorem magnitude_small {n : Nat} (small : n < 256) : (Binary.ofInt f n).magnitude = n := by
  have unscaled : (n : ℚ) = n * 2 ^ (0 : Int) := by rw [zpow_zero, mul_one]
  have rounded := holds.rounded_small small
  rw [unscaled] at rounded
  have exact := rounded.exact (holds.lt_hidden (by omega)) (by have := holds.leastQuantum_le; omega)
  rwa [← unscaled] at exact

theorem number_small {n : Nat} (small : n < 256) : (Binary.ofInt f n).number = n := by
  have sign := (holds.rounded_small small).isNegative
  rw [number_eq_magnitude (sign ▸ Leans.isNegative _), holds.magnitude_small small]

theorem rounded_full : Rounded (Binary.ofInt f 255) 255 :=
  holds.rounded_small (by decide : 255 < 256)

theorem magnitude_full : (Binary.ofInt f 255).magnitude = 255 :=
  holds.magnitude_small (by decide : 255 < 256)

theorem leans_full : (Binary.ofInt f 255).Leans false :=
  holds.rounded_full.isNegative ▸ Leans.isNegative _

end Format.HoldsBytes

namespace Depth

/-! ## Two roundings -/

/-- The magnitude `v` is rounded to a format, and what comes out to the integer `k`. -/
def Settles (f : Format) (v : ℚ) (k : Nat) : Prop :=
  ∃ x : Binary f, Rounded x v ∧ RoundsTo x.magnitude k

namespace Settles

variable {f : Format} {v w : ℚ} {k m : Nat}

theorem mono (left : Settles f v k) (right : Settles f w m) (le : v ≤ w) : k ≤ m := by
  obtain ⟨x, first, nearest⟩ := left
  obtain ⟨y, second, nearest'⟩ := right
  exact nearest.mono nearest' (first.mono second le)

variable (holds : f.HoldsBytes) (settles : Settles f v k)

include holds settles

theorem le_of_le (small : m < 256) (le : v ≤ m + 1 / 4) : k ≤ m := by
  obtain ⟨x, rounded, nearest⟩ := settles
  have quarters : ((4 * m + 1 : Nat) : ℚ) * 2 ^ (-2 : Int) = m + 1 / 4 := by
    push_cast
    ring
  rw [← quarters] at le
  have bound := rounded.le_of_le (holds.lt_hidden (by omega)) holds.leastQuantum_le le
  have below := nearest.sub_half_le
  rw [quarters] at bound
  have next : (k : ℚ) < m + 1 := by linarith
  exact Nat.lt_succ_iff.mp (by exact_mod_cast next)

theorem ge_of_ge (small : m < 256) (ge : m - 1 / 4 ≤ v) : m ≤ k := by
  rcases Nat.eq_zero_or_pos m with rfl | positive
  · exact Nat.zero_le k
  · obtain ⟨x, rounded, nearest⟩ := settles
    have quarters : ((4 * m - 1 : Nat) : ℚ) * 2 ^ (-2 : Int) = m - 1 / 4 := by
      have whole : 1 ≤ 4 * m := by omega
      push_cast [whole]
      ring
    rw [← quarters] at ge
    have bound := rounded.le_of_ge (holds.lt_hidden (by omega)) holds.leastQuantum_le ge
    have above := nearest.le_add_half
    rw [quarters] at bound
    have next : (m : ℚ) < k + 1 := by linarith
    exact Nat.lt_succ_iff.mp (by exact_mod_cast next)

end Settles

/-! ## Binary values -/

section Unit

variable {f : Format} (holds : f.HoldsBytes) (x : Binary f)

include holds

theorem number_cut : (cut x).isNaN = false ∧ (cut x).number = max 0 (min 1 x.number) := by
  have zero : (0 : Binary f).number = 0 := holds.number_small (by decide : 0 < 256)
  have one : (1 : Binary f).number = 1 :=
    (holds.number_small (by decide : 1 < 256)).trans Nat.cast_one
  have zeroNumber : (0 : Binary f).isNaN = false := rfl
  have oneNumber : (1 : Binary f).isNaN = false := rfl
  unfold cut
  cases unordered : x.isNaN with
  | true =>
    obtain rfl : x = .nan := by
      cases x with
      | nan => rfl
      | signed s rank h => cases unordered
    refine ⟨zeroNumber, zero.trans ?_⟩
    simp [number]
  | false =>
    have below := lt_iff holds.precise unordered zeroNumber
    have above := lt_iff holds.precise oneNumber unordered
    rw [zero] at below
    rw [one] at above
    simp only [Bool.false_eq_true, ↓reduceIte, below, above]
    split
    · next negative => exact ⟨zeroNumber, by rw [zero]; simp [negative.le]⟩
    · split
      · next beyond => exact ⟨oneNumber, by rw [one]; simp [beyond.le]⟩
      · next nonneg within =>
        refine ⟨unordered, ?_⟩
        rw [min_eq_right (not_lt.mp within), max_eq_right (not_lt.mp nonneg)]

omit holds in
theorem magnitude_abs_mul {x y : Binary f} (left : x.isFinite = true) (right : y.isFinite = true) :
    (x.abs * y).magnitude = (x * y).magnitude := by
  obtain ⟨s, a, ha, rfl⟩ := exists_of_isFinite left
  obtain ⟨t, b, hb, rfl⟩ := exists_of_isFinite right
  have unsigned : (signed s a ha.le).abs = signed false a ha.le := rfl
  rw [unsigned, mul_finite ha hb, mul_finite ha hb]
  rfl

/-- Cut values are between 0 and 1; zero may have either sign. -/
theorem cut_regular : (cut x).isFinite = true ∧ (cut x).Leans false ∧
    (cut x).magnitude = max 0 (min 1 x.number) := by
  obtain ⟨ordered, value⟩ := number_cut holds x
  have nonneg : 0 ≤ (cut x).number := by
    rw [value]
    exact le_max_left ..
  have atMost : (cut x).number ≤ 1 := by
    rw [value]
    exact max_le zero_le_one (min_le_left ..)
  have leans := leans_of_number_nonneg holds.precise nonneg
  rw [number_eq_magnitude leans] at value atMost
  refine ⟨?_, leans, value⟩
  generalize cut x = y at *
  cases y with
  | nan => cases ordered
  | signed s rank inRange =>
    rw [isFinite_signed, Format.lt_top_iff holds.precise holds.ranged inRange]
    exact holds.lt_overflow (lt_of_le_of_lt atMost (by norm_num))

theorem ofUnit?_settles :
    ∃ k : Nat, ofUnit? x = some (k : Int) ∧ Settles f (max 0 (min 1 x.number) * 255) k := by
  obtain ⟨finite, leans, value⟩ := cut_regular holds x
  have full := holds.rounded_full
  have atMost : max 0 (min 1 x.number) ≤ 1 := max_le zero_le_one (min_le_left ..)
  have below : (cut x).abs.magnitude * (Binary.ofInt f 255).magnitude < f.overflow := by
    rw [magnitude_abs, holds.magnitude_full, value]
    exact holds.lt_overflow (by linarith)
  have absFinite : (cut x).abs.isFinite = true := by rwa [isFinite_abs]
  have absSign : (cut x).abs.isNegative = false := by cases cut x <;> rfl
  have rounded := rounded_mul holds.precise holds.ranged absFinite full.isFinite absSign
    full.isNegative below
  have productFinite : (cut x * Binary.ofInt f 255).isFinite = true := by
    rw [isFinite_mul holds.precise holds.ranged finite full.isFinite, ← magnitude_abs]
    exact below
  obtain ⟨k, read, nearest⟩ := exists_nearestInt productFinite
    (leans.mul holds.leans_full)
  rw [← magnitude_abs_mul finite full.isFinite] at nearest
  rw [magnitude_abs, holds.magnitude_full, value] at rounded
  exact ⟨k, read, _, rounded, nearest⟩

end Unit

/-! ## Integers -/

/-- An integer over the range up to `top`, as binary64 has it before the last two roundings. -/
def overRange (top n : Nat) : ℚ :=
  (Real64.ofInt n).magnitude * (Real64.ofInt 255 / Real64.ofInt top).magnitude

theorem binary64_holdsBytes : Format.binary64.HoldsBytes := ⟨by decide, by decide⟩

section Range

variable {top n : Nat}

theorem rounded_ofWord (small : n < 2 ^ 64) : Rounded (Real64.ofInt n) n := by
  apply rounded_ofNat (by decide) (by decide)
  calc (n : ℚ) < 2 ^ 64 := by exact_mod_cast small
    _ < Format.binary64.overflow := Real64.two_pow_lt_overflow (by decide)

theorem magnitude_ofWord_le (small : n < 2 ^ 64) : (Real64.ofInt n).magnitude ≤ 2 ^ 64 := by
  have power : ((1 : Nat) : ℚ) * 2 ^ (64 : Int) = 2 ^ 64 := by norm_num
  rw [← power]
  apply (rounded_ofWord small).le_of_le (by decide) (by decide)
  rw [power]
  exact_mod_cast small.le

theorem one_le_magnitude_ofWord (positive : 0 < n) (small : n < 2 ^ 64) :
    1 ≤ (Real64.ofInt n).magnitude := by
  have unit : ((1 : Nat) : ℚ) * 2 ^ (0 : Int) = 1 := by norm_num
  rw [← unit]
  apply (rounded_ofWord small).le_of_ge (by decide) (by decide)
  rw [unit]
  exact_mod_cast positive

theorem overRange_zero (top : Nat) : overRange top 0 = 0 := by
  rw [overRange, Real64.magnitude_ofInt (by decide)]
  simp

theorem overRange_mono (top : Nat) {m : Nat} (le : m ≤ n) (small : n < 2 ^ 64) :
    overRange top m ≤ overRange top n := by
  have ordered := (rounded_ofWord (le.trans_lt small)).mono (rounded_ofWord small)
    (by exact_mod_cast le)
  have nonneg := (Real64.ofInt 255 / Real64.ofInt top).magnitude_nonneg
  exact mul_le_mul_of_nonneg_right ordered nonneg

section Factor

variable (positive : 0 < top) (small : top < 2 ^ 64)

include positive small

theorem rounded_factor : Rounded (Real64.ofInt 255 / Real64.ofInt top)
    (255 / (Real64.ofInt top).magnitude) := by
  have divisor := rounded_ofWord small
  have least := one_le_magnitude_ofWord positive small
  have full : Rounded (Real64.ofInt 255) 255 := binary64_holdsBytes.rounded_full
  have fullValue : (Real64.ofInt 255).magnitude = 255 := binary64_holdsBytes.magnitude_full
  have below : (Real64.ofInt 255).magnitude / (Real64.ofInt top).magnitude <
      Format.binary64.overflow := by
    apply binary64_holdsBytes.lt_overflow
    rw [fullValue, div_lt_iff₀ (by linarith)]
    linarith
  rw [← fullValue]
  exact rounded_div (by decide) (by decide) full.isFinite divisor.isFinite full.isNegative
    divisor.isNegative (isZero_of_magnitude_pos (by linarith)) below

/-- The rounded reciprocal takes the range to 255 within half a unit of its last place. -/
theorem factor_error : |(Real64.ofInt 255 / Real64.ofInt top).magnitude -
    255 / (Real64.ofInt top).magnitude| ≤ 255 / (Real64.ofInt top).magnitude / 2 ^ 53 := by
  have least := one_le_magnitude_ofWord positive small
  have most := magnitude_ofWord_le small
  apply (rounded_factor positive small).error
  have place : Format.binary64.leastQuantum + Format.binary64.precision - 1 = -1022 := rfl
  rw [place, le_div_iff₀ (by linarith)]
  calc (2 : ℚ) ^ (-1022 : Int) * (Real64.ofInt top).magnitude ≤ 2 ^ (-64 : Int) * 2 ^ 64 := by
        gcongr
        · exact one_le_two
        · decide
    _ = 1 := by norm_num
    _ ≤ 255 := by norm_num

theorem overRange_top : |overRange top top - 255| ≤ 1 / 4 := by
  have least := one_le_magnitude_ofWord positive small
  have error := factor_error positive small
  unfold overRange
  generalize (Real64.ofInt top).magnitude = t at *
  generalize (Real64.ofInt 255 / Real64.ofInt top).magnitude = factor at *
  have above : 0 < t := by linarith
  have split : t * factor - 255 = t * (factor - 255 / t) := by
    field_simp
  have share : t * (255 / t / 2 ^ 53) = 255 / 2 ^ 53 := by
    field_simp
  calc |t * factor - 255| = t * |factor - 255 / t| := by
        rw [split, abs_mul, abs_of_pos above]
    _ ≤ t * (255 / t / 2 ^ 53) := by gcongr
    _ ≤ 1 / 4 := by
      rw [share]
      norm_num

theorem overRange_le (within : n ≤ top) : overRange top n ≤ 255 + 1 / 4 := by
  have bound := overRange_mono top within small
  have whole := abs_le.mp (overRange_top positive small)
  linarith

theorem ofRange?_settles (within : n ≤ top) :
    ∃ k : Nat, ofRange? top n = some (k : Int) ∧ Settles .binary64 (overRange top n) k := by
  have inWord : n < 2 ^ 64 := within.trans_lt small
  have number := rounded_ofWord inWord
  have factor := rounded_factor positive small
  have bound := overRange_le positive small within
  have below : overRange top n < Format.binary64.overflow :=
    binary64_holdsBytes.lt_overflow (by linarith)
  have product := rounded_mul (by decide) (by decide) number.isFinite factor.isFinite
    number.isNegative factor.isNegative below
  obtain ⟨k, read, nearest⟩ := exists_nearestInt product.isFinite
    (product.isNegative ▸ Leans.isNegative _)
  have cut : max (n : Int) 0 = n := max_eq_left (Int.natCast_nonneg n)
  refine ⟨k, ?_, _, product, nearest⟩
  rw [ofRange?, cut]
  exact read

end Factor

/-! ### Exact rounding -/

/-- Multiples of 255 over an odd divisor are no halves, and keep half a unit of the divisor away
from them. -/
theorem nearest_of_odd {d k a : Nat} (odd : d % 2 = 1) (narrow : d < 2 ^ 32)
    (near : |(k : ℚ) - 255 * a / d| ≤ 1 / 2 + 1 / 2 ^ 40) :
    |(k : ℚ) - 255 * a / d| < 1 / 2 := by
  have positive : (0 : ℚ) < d := by exact_mod_cast (by omega : 0 < d)
  have narrowRat : (d : ℚ) < 2 ^ 32 := by exact_mod_cast narrow
  have scaled : (k : ℚ) - 255 * a / d = (2 * (d * k - 255 * a) : Int) / (2 * d) := by
    push_cast
    field_simp
  rw [scaled, abs_div, abs_of_pos (by linarith : (0 : ℚ) < 2 * d), ← Int.cast_abs] at near ⊢
  rw [div_le_iff₀ (by linarith)] at near
  rw [div_lt_iff₀ (by linarith)]
  have next : ((|2 * ((d : Int) * k - 255 * a)| : Int) : ℚ) < (d + 1 : Int) := by
    push_cast at near ⊢
    linarith
  have atMost : |2 * ((d : Int) * k - 255 * a)| < d + 1 := by exact_mod_cast next
  -- The numerator is even and the divisor odd, so the numerator cannot reach it.
  have strict : |2 * ((d : Int) * k - 255 * a)| < d := by
    generalize (d : Int) * k - 255 * a = e at *
    rw [abs_lt] at *
    omega
  have strictRat : ((|2 * ((d : Int) * k - 255 * a)| : Int) : ℚ) < d := by exact_mod_cast strict
  push_cast at strictRat ⊢
  linarith

section Narrow

variable (positive : 0 < top) (narrow : top < 2 ^ 32) (within : n ≤ top)

include positive narrow within

theorem overRange_error : |overRange top n - 255 * n / top| ≤ 255 / 2 ^ 53 := by
  have error := factor_error positive (by omega)
  have range : (Real64.ofInt top).magnitude = top := Real64.magnitude_ofInt (by omega)
  have number : (Real64.ofInt n).magnitude = n := Real64.magnitude_ofInt (by omega)
  have above : (0 : ℚ) < top := by exact_mod_cast positive
  have withinRat : (n : ℚ) ≤ top := by exact_mod_cast within
  rw [range] at error
  rw [overRange, number]
  generalize (Real64.ofInt 255 / Real64.ofInt top).magnitude = factor at *
  have split : n * factor - 255 * n / top = n * (factor - 255 / top) := by ring
  have share : (top : ℚ) * (255 / top / 2 ^ 53) = 255 / 2 ^ 53 := by field_simp
  calc |n * factor - 255 * n / top| = n * |factor - 255 / top| := by
        rw [split, abs_mul, Nat.abs_cast]
    _ ≤ top * (255 / top / 2 ^ 53) := by gcongr
    _ = 255 / 2 ^ 53 := share

/-- The product does not fall below the numbers of full precision, unless it is zero. -/
theorem normal_overRange (some : 0 < n) : (2 : ℚ) ^ (-1022 : Int) ≤ overRange top n := by
  have error := abs_le.mp (overRange_error positive narrow within)
  have above : (0 : ℚ) < top := by exact_mod_cast positive
  have narrowRat : (top : ℚ) ≤ 2 ^ 32 := by exact_mod_cast narrow.le
  have one : (1 : ℚ) ≤ n := by exact_mod_cast some
  have quotient : 255 / 2 ^ 32 ≤ 255 * n / (top : ℚ) := by
    gcongr
    linarith
  calc (2 : ℚ) ^ (-1022 : Int) ≤ 2 ^ (-32 : Int) := zpow_le_zpow_right₀ one_le_two (by decide)
    _ ≤ 255 / 2 ^ 32 - 255 / 2 ^ 53 := by norm_num
    _ ≤ overRange top n := by linarith

theorem nearest_of_settles {k : Nat} (odd : top % 2 = 1)
    (settles : Settles .binary64 (overRange top n) k) :
    |(k : ℚ) - 255 * n / top| < 1 / 2 := by
  rcases Nat.eq_zero_or_pos n with rfl | some
  · have vanishes := settles.le_of_le (m := 0) binary64_holdsBytes (by decide)
      (by rw [overRange_zero]; norm_num)
    obtain rfl : k = 0 := Nat.le_zero.mp vanishes
    norm_num
  · have error := overRange_error positive narrow within
    have bound := overRange_le positive (by omega) within
    have normal := normal_overRange positive narrow within some
    obtain ⟨x, rounded, nearest⟩ := settles
    have first : |x.magnitude - overRange top n| ≤ 256 / 2 ^ 53 :=
      calc |x.magnitude - overRange top n| ≤ overRange top n / 2 ^ 53 := rounded.error normal
        _ ≤ 256 / 2 ^ 53 := by
          gcongr
          linarith
    have second : |(k : ℚ) - x.magnitude| ≤ 1 / 2 := by
      rw [abs_le]
      constructor <;> linarith [nearest.le_add_half, nearest.sub_half_le]
    -- Three errors in a row: of the factor, of the product and of the integer.
    apply nearest_of_odd odd narrow
    have split : (k : ℚ) - 255 * n / top = (k - x.magnitude) + (x.magnitude - overRange top n) +
        (overRange top n - 255 * n / top) := by ring
    calc |(k : ℚ) - 255 * n / top| ≤ |(k : ℚ) - x.magnitude| + |x.magnitude - overRange top n| +
          |overRange top n - 255 * n / top| := by
          rw [split]
          exact abs_add_three ..
      _ ≤ 1 / 2 + 256 / 2 ^ 53 + 255 / 2 ^ 53 := by gcongr
      _ ≤ 1 / 2 + 1 / 2 ^ 40 := by norm_num

end Narrow

end Range

end Depth

end RasterEdit
