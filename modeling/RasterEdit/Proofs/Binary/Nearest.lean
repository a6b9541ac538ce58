import RasterEdit.Proofs.Binary.Overflow

/-!
# Magnitudes rounded once

A quotient, a product or a sum of values without a minus sign is its exact magnitude rounded once.
Rounding keeps the order, does not pass a magnitude that the format can express, and moves a
magnitude of full precision by at most half a unit of its last place.
-/

set_option autoImplicit false

namespace RasterEdit

namespace Format

variable {f : Format}

theorem magnitude_le_iff (precise : 0 < f.precision) {a b : Nat} :
    f.magnitude a ≤ f.magnitude b ↔ a ≤ b := by
  refine ⟨fun le => ?_, magnitude_mono precise⟩
  have ordered := (magnitude_places precise a).rankAt_le precise (magnitude_places precise b) le
  rwa [rankAt_self, rankAt_self] at ordered

theorem magnitude_rankAt {quantum : Int} {significand : Nat} (least : f.leastQuantum ≤ quantum)
    (small : significand < 2 * f.hidden)
    (full : f.leastQuantum < quantum → f.hidden ≤ significand) :
    f.magnitude (f.rankAt quantum significand) = significand * 2 ^ quantum := by
  have positive := f.hidden_pos
  unfold rankAt
  generalize steps : (quantum - f.leastQuantum).toNat = t
  rcases Nat.eq_zero_or_pos t with rfl | above
  · have same : quantum = f.leastQuantum := by omega
    rw [Nat.zero_mul, Nat.zero_add, magnitude_of_lt small, same]
  · have atLeast := full (by omega)
    have split : t * f.hidden + significand = (significand - f.hidden) + f.hidden * (t + 1) := by
      rw [Nat.mul_add, Nat.mul_comm f.hidden]
      omega
    have rest : significand - f.hidden < f.hidden := by omega
    have quotient : (t * f.hidden + significand) / f.hidden = t + 1 := by
      rw [split, Nat.add_mul_div_left _ _ positive, Nat.div_eq_of_lt rest, Nat.zero_add]
    have remainder : (t * f.hidden + significand) % f.hidden = significand - f.hidden := by
      rw [split, Nat.add_mul_mod_self_left, Nat.mod_eq_of_lt rest]
    have normal : ¬ t * f.hidden + significand < f.hidden := by omega
    have significand_eq : f.significand (t * f.hidden + significand) = significand := by
      rw [Format.significand, if_neg normal, remainder]
      omega
    have quantum_eq : f.quantum (t * f.hidden + significand) = quantum := by
      rw [Format.quantum, quotient]
      omega
    rw [magnitude, significand_eq, quantum_eq]

theorem Places.magnitude_rankAt (precise : 0 < f.precision) {x : ℚ} {quantum : Int}
    {significand : Nat} (placed : f.Places x quantum significand) :
    f.magnitude (f.rankAt quantum significand) = significand * 2 ^ quantum := by
  have least := placed.least_le
  have positive := f.hidden_pos
  -- A significand that was rounded up to the next power of two begins the next spacing.
  rcases (placed.significand_le precise).lt_or_eq with small | carried
  · exact Format.magnitude_rankAt least small (placed.hidden_le precise)
  · have next : f.rankAt quantum significand = f.rankAt (quantum + 1) f.hidden := by
      have step : (quantum + 1 - f.leastQuantum).toNat = (quantum - f.leastQuantum).toNat + 1 := by
        omega
      rw [rankAt, rankAt, step, Nat.add_mul, carried]
      omega
    rw [next, Format.magnitude_rankAt (by omega) (by omega) fun _ => Nat.le_refl _, carried,
      zpow_add_one₀ two_ne_zero]
    push_cast
    ring

theorem magnitude_lt_or_multiple (precise : 0 < f.precision) (rank : Nat) (q : Int) :
    f.magnitude rank < 2 ^ (q + f.precision - 1) ∨ ∃ m : Nat, f.magnitude rank = m * 2 ^ q := by
  rcases lt_or_ge (f.quantum rank) q with finer | coarser
  · left
    have small : (f.significand rank : ℚ) < 2 * f.hidden := by exact_mod_cast f.significand_lt rank
    calc f.magnitude rank < 2 * f.hidden * 2 ^ f.quantum rank := by unfold magnitude; gcongr
      _ = 2 ^ (1 + (f.precision - 1 : Int) + f.quantum rank) := by
        rw [hidden_cast precise, zpow_add₀ two_ne_zero, zpow_add₀ two_ne_zero, zpow_one]
      _ ≤ 2 ^ (q + f.precision - 1) := zpow_le_zpow_right₀ one_le_two (by omega)
  · right
    refine ⟨f.significand rank <<< (f.quantum rank - q).toNat, ?_⟩
    rw [shiftLeft_toNat _ (by omega), mul_assoc, ← zpow_add₀ two_ne_zero, sub_add_cancel]
    rfl

end Format

namespace Binary

variable {f : Format}

theorem exists_of_unsigned {x : Binary f} (finite : x.isFinite = true)
    (sign : x.isNegative = false) :
    ∃ rank, ∃ below : rank < f.top, x = signed false rank below.le := by
  obtain ⟨s, rank, below, rfl⟩ := exists_of_isFinite finite
  obtain rfl : s = false := sign
  exact ⟨rank, below, rfl⟩

/-- Above a power of two, numbers are multiples of the spacing that begins there. -/
theorem magnitude_lt_or_multiple (precise : 0 < f.precision) (x : Binary f) (q : Int) :
    x.magnitude < 2 ^ (q + f.precision - 1) ∨ ∃ m : Nat, x.magnitude = m * 2 ^ q := by
  cases x with
  | nan => exact .inr ⟨0, by rw [Nat.cast_zero, zero_mul, magnitude]⟩
  | signed s rank h => exact Format.magnitude_lt_or_multiple precise rank q

/-- The magnitude `v` does not overflow and is rounded to `x`. -/
structure Rounded (x : Binary f) (v : ℚ) : Prop where
  precise : 0 < f.precision
  ranged : 0 < f.maxExponent
  below : v < f.overflow
  result : ∃ (n d : Nat) (q : Int), d ≠ 0 ∧ (n : ℚ) / d * 2 ^ q = v ∧ x = round f false n d q

namespace Rounded

variable {x y : Binary f} {v w : ℚ}

theorem isNegative (rounded : Rounded x v) : x.isNegative = false := by
  obtain ⟨n, d, q, -, -, rfl⟩ := rounded.result
  rfl

theorem isFinite (rounded : Rounded x v) : x.isFinite = true := by
  obtain ⟨n, d, q, divisor, same, rfl⟩ := rounded.result
  rw [isFinite_round rounded.precise rounded.ranged _ _ divisor, same]
  exact rounded.below

/-! ### Order -/

theorem mono (left : Rounded x v) (right : Rounded y w) (le : v ≤ w) :
    x.magnitude ≤ y.magnitude := by
  have precise := left.precise
  obtain ⟨n, d, q, divisor, rfl, rfl⟩ := left.result
  obtain ⟨n', d', q', divisor', rfl, rfl⟩ := right.result
  exact Format.magnitude_mono precise (nearestRank_mono precise divisor divisor' le)

theorem le_of_le {m : Nat} {q : Int} (rounded : Rounded x v) (small : m < 2 * f.hidden)
    (inRange : f.leastQuantum ≤ q) (le : v ≤ m * 2 ^ q) : x.magnitude ≤ m * 2 ^ q := by
  have precise := rounded.precise
  obtain ⟨n, d, q', divisor, rfl, rfl⟩ := rounded.result
  obtain ⟨rank, expressed⟩ := Format.exists_magnitude small inRange
  rw [← expressed] at le ⊢
  exact Format.magnitude_mono precise (nearestRank_le precise divisor le)

theorem le_of_ge {m : Nat} {q : Int} (rounded : Rounded x v) (small : m < 2 * f.hidden)
    (inRange : f.leastQuantum ≤ q) (le : m * 2 ^ q ≤ v) : m * 2 ^ q ≤ x.magnitude := by
  obtain ⟨precise, ranged, below, n, d, q', divisor, rfl, rfl⟩ := rounded
  obtain ⟨rank, expressed⟩ := Format.exists_magnitude small inRange
  rw [← expressed] at le ⊢
  by_cases zero : n = 0
  · rw [zero, Nat.cast_zero, zero_div, zero_mul] at le
    exact le.trans (magnitude_nonneg _)
  · have inTop := (Format.le_top_of_magnitude_lt precise ranged (le.trans_lt below)).le
    exact Format.magnitude_mono precise (le_nearestRank precise zero divisor inTop le)

theorem exact {m : Nat} {q : Int} (rounded : Rounded x (m * 2 ^ q)) (small : m < 2 * f.hidden)
    (inRange : f.leastQuantum ≤ q) : x.magnitude = m * 2 ^ q :=
  le_antisymm (rounded.le_of_le small inRange le_rfl) (rounded.le_of_ge small inRange le_rfl)

theorem lt_iff (left : Rounded x v) (right : Rounded y w) :
    Binary.lt x y = true ↔ x.magnitude < y.magnitude := by
  obtain ⟨a, ha, rfl⟩ := exists_of_unsigned left.isFinite left.isNegative
  obtain ⟨b, hb, rfl⟩ := exists_of_unsigned right.isFinite right.isNegative
  have ranks : Binary.lt (signed false a ha.le) (signed false b hb.le) = true ↔ a < b := by
    simp [Binary.lt, compare?, key, compare_lt_iff_lt]
  rw [ranks, ← not_le, ← not_le, not_iff_not]
  exact (Format.magnitude_le_iff left.precise).symm

theorem eq_of_magnitude_eq (left : Rounded x v) (right : Rounded y w)
    (same : x.magnitude = y.magnitude) : x = y := by
  have ordered {a b : Nat} := Format.magnitude_le_iff (a := a) (b := b) left.precise
  obtain ⟨a, ha, rfl⟩ := exists_of_unsigned left.isFinite left.isNegative
  obtain ⟨b, hb, rfl⟩ := exists_of_unsigned right.isFinite right.isNegative
  obtain rfl : a = b := Nat.le_antisymm (ordered.mp same.le) (ordered.mp same.ge)
  rfl

/-- A magnitude has one rounding. -/
theorem unique (left : Rounded x v) (right : Rounded y v) : x = y :=
  left.eq_of_magnitude_eq right (le_antisymm (left.mono right le_rfl) (right.mono left le_rfl))

/-! ### Errors -/

/-- A magnitude is rounded to a multiple of the spacing where it is placed. -/
theorem exists_places (rounded : Rounded x v) (positive : 0 < v) :
    ∃ quantum significand, f.Places v quantum significand ∧
      x.magnitude = significand * 2 ^ quantum := by
  have precise := rounded.precise
  have finite := rounded.isFinite
  obtain ⟨n, d, q, divisor, same, rfl⟩ := rounded.result
  have numerator : n ≠ 0 := by
    rintro rfl
    rw [Nat.cast_zero, zero_div, zero_mul] at same
    exact positive.ne same
  obtain ⟨quantum, significand, placed, atRank⟩ := nearestRank_places f numerator divisor q
  rw [same] at placed
  refine ⟨quantum, significand, placed, ?_⟩
  rw [round, isFinite_signed, atRank] at finite
  rw [← placed.magnitude_rankAt precise, round, magnitude, atRank, min_eq_left (by omega)]

/-- Rounding moves a magnitude by at most half of the spacing where it is placed. -/
theorem exists_quantum (rounded : Rounded x v) (positive : 0 < v) :
    ∃ quantum : Int, f.leastQuantum ≤ quantum ∧
      (f.leastQuantum < quantum → 2 ^ (quantum + f.precision - 1) ≤ v) ∧
      |x.magnitude - v| ≤ 1 / 2 * 2 ^ quantum := by
  obtain ⟨quantum, significand, placed, value⟩ := rounded.exists_places positive
  refine ⟨quantum, placed.least_le, placed.above, ?_⟩
  have scale : (0 : ℚ) < 2 ^ quantum := by positivity
  have shifted : v = v / 2 ^ quantum * 2 ^ quantum := by field_simp
  have offset : |(significand : ℚ) - v / 2 ^ quantum| ≤ 1 / 2 := by
    rw [abs_le]
    constructor <;> linarith [placed.rounds.le_add_half, placed.rounds.sub_half_le]
  calc |x.magnitude - v|
      = |((significand : ℚ) - v / 2 ^ quantum) * 2 ^ quantum| := by
        rw [value, sub_mul, ← shifted]
    _ = |(significand : ℚ) - v / 2 ^ quantum| * 2 ^ quantum := by
        rw [abs_mul, abs_of_pos scale]
    _ ≤ 1 / 2 * 2 ^ quantum := by gcongr

/-- Rounding to full precision moves a magnitude by at most half a unit of its last place. -/
theorem error (rounded : Rounded x v) (normal : 2 ^ (f.leastQuantum + f.precision - 1) ≤ v) :
    |x.magnitude - v| ≤ v / 2 ^ f.precision := by
  have least : (0 : ℚ) < 2 ^ (f.leastQuantum + f.precision - 1) := by positivity
  obtain ⟨quantum, atLeast, above, near⟩ := rounded.exists_quantum (least.trans_le normal)
  have full : (2 : ℚ) ^ (quantum + f.precision - 1) ≤ v := by
    rcases atLeast.lt_or_eq with coarser | finest
    · exact above coarser
    · rwa [← finest]
  have unit : (1 / 2 : ℚ) * 2 ^ quantum * 2 ^ f.precision = 2 ^ (quantum + f.precision - 1) := by
    rw [zpow_sub_one₀ two_ne_zero, zpow_add₀ two_ne_zero, zpow_natCast]
    ring
  refine near.trans ?_
  rw [le_div_iff₀ (by positivity), unit]
  exact full

/-- Below a power of two, rounding moves a magnitude by at most half of the spacing there. -/
theorem error_of_lt (rounded : Rounded x v) {q : Int} (inRange : f.leastQuantum ≤ q)
    (below : v < 2 ^ (q + f.precision)) : |x.magnitude - v| ≤ 1 / 2 * 2 ^ q := by
  obtain ⟨n, d, q', divisor, same, rfl⟩ := rounded.result
  have nonneg : 0 ≤ v := by
    rw [← same]
    positivity
  rcases nonneg.lt_or_eq with positive | rfl
  · obtain ⟨quantum, -, above, near⟩ := rounded.exists_quantum positive
    have finer : quantum ≤ q := by
      by_contra coarser
      have reached := (above (by omega)).trans_lt below
      rw [zpow_lt_zpow_iff_right₀ one_lt_two] at reached
      omega
    refine near.trans ?_
    gcongr
    exact one_le_two
  · have zero : Rounded (round f false n d q') ((0 : Nat) * 2 ^ q) := by
      rwa [Nat.cast_zero, zero_mul]
    have nothing : 0 < 2 * f.hidden := Nat.mul_pos two_pos f.hidden_pos
    rw [zero.exact nothing inRange, Nat.cast_zero, zero_mul, sub_zero, abs_zero]
    positivity

/-! ### Between two neighbours -/

section Neighbours

variable {k : Nat} {q : Int} (full : f.hidden ≤ k) (small : k < 2 * f.hidden)
  (inRange : f.leastQuantum ≤ q)

include full small inRange

/-- Half-way between two numbers of full precision, the one with the even significand is taken. -/
theorem of_half_way (rounded : Rounded x ((k + 1 / 2) * 2 ^ q)) :
    x.magnitude = (k + k % 2 : Nat) * 2 ^ q := by
  have precise := rounded.precise
  have unit : (0 : ℚ) < 2 ^ q := by positivity
  have fullRat : (f.hidden : ℚ) ≤ k := by exact_mod_cast full
  have smallRat : (k : ℚ) + 1 ≤ 2 * f.hidden := by exact_mod_cast small
  rw [Format.hidden_cast precise] at fullRat smallRat
  have positive : (0 : ℚ) < (k + 1 / 2) * 2 ^ q := by positivity
  obtain ⟨quantum, significand, placed, value⟩ := rounded.exists_places positive
  -- The number is placed where its neighbours are.
  have low : q ≤ quantum := by
    have reached : (2 : ℚ) ^ ((f.precision : Int) - 1 + q) < 2 ^ (quantum + f.precision) :=
      calc (2 : ℚ) ^ ((f.precision : Int) - 1 + q) = 2 ^ (f.precision - 1 : Int) * 2 ^ q :=
            zpow_add₀ two_ne_zero _ _
        _ ≤ (k + 1 / 2) * 2 ^ q := by gcongr; linarith
        _ < 2 ^ (quantum + f.precision) := placed.below
    rw [zpow_lt_zpow_iff_right₀ one_lt_two] at reached
    omega
  have high : quantum ≤ q := by
    rcases placed.least_le.lt_or_eq with above | least
    · have reached : (2 : ℚ) ^ (quantum + f.precision - 1) < 2 ^ (1 + (f.precision - 1 : Int) + q) :=
        calc (2 : ℚ) ^ (quantum + f.precision - 1) ≤ (k + 1 / 2) * 2 ^ q := placed.above above
          _ < 2 * 2 ^ (f.precision - 1 : Int) * 2 ^ q := by gcongr; linarith
          _ = 2 ^ (1 + (f.precision - 1 : Int) + q) := by
            rw [zpow_add₀ two_ne_zero, zpow_add₀ two_ne_zero, zpow_one]
      rw [zpow_lt_zpow_iff_right₀ one_lt_two] at reached
      omega
    · omega
  obtain rfl : quantum = q := le_antisymm high low
  have rounds := placed.rounds
  rw [mul_div_cancel_right₀ _ unit.ne'] at rounds
  have least : (k : ℚ) ≤ significand := by linarith [rounds.le_add_half]
  have most : (significand : ℚ) ≤ k + 1 := by linarith [rounds.sub_half_le]
  have leastNat : k ≤ significand := by exact_mod_cast least
  have mostNat : significand ≤ k + 1 := by exact_mod_cast most
  rw [value]
  congr 2
  rcases leastNat.lt_or_eq with above | same
  · obtain rfl : significand = k + 1 := by omega
    have even := rounds.even_of_eq_sub_half (by push_cast; ring)
    omega
  · subst same
    have even := rounds.even_of_eq_add_half rfl
    omega

/-- Less than half a unit above a number of full precision, that number is taken. -/
theorem of_near (rounded : Rounded x v) (low : k * 2 ^ q ≤ v) (high : v < (k + 1 / 2) * 2 ^ q) :
    x.magnitude = k * 2 ^ q := by
  have precise := rounded.precise
  have unit : (0 : ℚ) < 2 ^ q := by positivity
  have fullRat : (f.hidden : ℚ) ≤ k := by exact_mod_cast full
  have smallRat : (k : ℚ) + 1 ≤ 2 * f.hidden := by exact_mod_cast small
  have least := rounded.le_of_ge small inRange low
  rw [Format.hidden_cast precise] at fullRat smallRat
  have placed : (2 : ℚ) ^ (q + f.precision - 1) = 2 ^ (f.precision - 1 : Int) * 2 ^ q := by
    rw [← zpow_add₀ two_ne_zero]
    congr 1
    omega
  have below : v < 2 ^ (q + f.precision) :=
    calc v < (k + 1 / 2) * 2 ^ q := high
      _ ≤ 2 * 2 ^ (f.precision - 1 : Int) * 2 ^ q := by gcongr; linarith
      _ = 2 ^ (q + f.precision) := by
        rw [mul_assoc, ← placed, ← zpow_one_add₀ two_ne_zero]
        congr 1
        omega
  have error := abs_le.mp (rounded.error_of_lt inRange below)
  have next : x.magnitude < (k + 1) * 2 ^ q := by linarith [error.2]
  rcases magnitude_lt_or_multiple precise x q with finer | ⟨m, multiple⟩
  · have start : (2 : ℚ) ^ (f.precision - 1 : Int) * 2 ^ q ≤ k * 2 ^ q := by gcongr
    rw [placed] at finer
    linarith
  · rw [multiple] at least next ⊢
    have leastNat : k ≤ m := by exact_mod_cast le_of_mul_le_mul_right least unit
    have nextNat : m < k + 1 := by exact_mod_cast lt_of_mul_lt_mul_right next unit.le
    obtain rfl : m = k := by omega
    rfl

end Neighbours

end Rounded

/-! ## Operations -/

section Operations

variable (precise : 0 < f.precision) (ranged : 0 < f.maxExponent)

include precise ranged

theorem rounded_ofFraction {n d : Nat} (divisor : d ≠ 0) (below : (n : ℚ) / d < f.overflow) :
    Rounded (ofFraction f n d) (n / d) := by
  refine ⟨precise, ranged, below, n, d, 0, divisor, by rw [zpow_zero, mul_one], ?_⟩
  have numeratorSign : ¬ (n : Int) < 0 := by omega
  have divisorSign : ¬ (d : Int) < 0 := by omega
  simp only [ofFraction, numeratorSign, divisorSign, decide_false, bne_self_eq_false,
    Int.natAbs_natCast]

theorem rounded_ofNat {n : Nat} (below : (n : ℚ) < f.overflow) : Rounded (ofInt f n) n := by
  refine ⟨precise, ranged, below, n, 1, 0, one_ne_zero, ?_, ?_⟩
  · rw [zpow_zero, mul_one, Nat.cast_one, div_one]
  · have sign : decide ((n : Int) < 0) = false := decide_eq_false (by omega)
    rw [ofInt, sign, Int.natAbs_natCast]

section Unsigned

variable {x y : Binary f} (left : x.isFinite = true) (right : y.isFinite = true)
  (signLeft : x.isNegative = false) (signRight : y.isNegative = false)

include left right signLeft signRight

theorem rounded_mul (below : x.magnitude * y.magnitude < f.overflow) :
    Rounded (x * y) (x.magnitude * y.magnitude) := by
  obtain ⟨a, ha, rfl⟩ := exists_of_unsigned left signLeft
  obtain ⟨b, hb, rfl⟩ := exists_of_unsigned right signRight
  refine ⟨precise, ranged, below, f.significand a * f.significand b, 1,
    f.quantum a + f.quantum b, one_ne_zero, ?_, mul_finite ha hb⟩
  exact Format.magnitude_mul f a b

theorem rounded_div (divisor : y.isZero = false)
    (below : x.magnitude / y.magnitude < f.overflow) :
    Rounded (x / y) (x.magnitude / y.magnitude) := by
  obtain ⟨a, ha, rfl⟩ := exists_of_unsigned left signLeft
  obtain ⟨b, hb, rfl⟩ := exists_of_unsigned right signRight
  have nonzero : b ≠ 0 := by simpa [isZero] using divisor
  refine ⟨precise, ranged, below, f.significand a, f.significand b, f.quantum a - f.quantum b,
    (Format.significand_pos nonzero).ne', ?_, div_finite ha hb nonzero⟩
  exact f.magnitude_div a b

theorem rounded_add (below : x.magnitude + y.magnitude < f.overflow) :
    Rounded (x + y) (x.magnitude + y.magnitude) := by
  obtain ⟨a, ha, rfl⟩ := exists_of_unsigned left signLeft
  obtain ⟨b, hb, rfl⟩ := exists_of_unsigned right signRight
  have sum := add_finite (s := false) (t := false) ha hb
  generalize common : min (f.quantum a) (f.quantum b) = q at sum
  have leftUnits : (units f a q : ℚ) * 2 ^ q = f.magnitude a := units_value f (by omega)
  have rightUnits : (units f b q : ℚ) * 2 ^ q = f.magnitude b := units_value f (by omega)
  have total : signedUnits false (units f a q) + signedUnits false (units f b q) =
      ((units f a q + units f b q : Nat) : Int) := rfl
  refine ⟨precise, ranged, below, units f a q + units f b q, 1, q, one_ne_zero, ?_, sum.trans ?_⟩
  · rw [Nat.cast_one, div_one, Nat.cast_add, add_mul, leftUnits, rightUnits]
    rfl
  · simp only [total]
    split
    · next none =>
      have zero : units f a q + units f b q = 0 := by exact_mod_cast none
      simp only [zero, round, nearestRank_zero]
      rfl
    · have sign : decide (((units f a q + units f b q : Nat) : Int) < 0) = false :=
        decide_eq_false (by omega)
      rw [sign, Int.natAbs_natCast]

end Unsigned

end Operations

end Binary

end RasterEdit
