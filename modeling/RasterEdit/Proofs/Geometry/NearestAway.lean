import Mathlib.Algebra.Order.Round
import RasterEdit.Proofs.Geometry.HalfAway

/-!
# Numbers that have their nearest integer

Rounding to pixels is to give the nearest integer, halves away from zero. The sum with one half is
rounded itself, and it overshoots beside two kinds of numbers: the predecessor of one half, whose
sum is taken for one, and the odd integers from `2 ^ 52` on, whose sum is taken for the next even
integer. Every other finite number has its nearest integer. The order of numbers and their signs
are kept without exception.
-/

set_option autoImplicit false

namespace RasterEdit

open Binary

/-- `n` is the integer nearest to `v`, the one farther from zero of two equally near. -/
structure NearestAway (v : ℚ) (n : Int) : Prop where
  near : ∀ m : Int, |v - n| ≤ |v - m|
  away : ∀ m : Int, |v - m| = |v - n| → |m| ≤ |n|

namespace NearestAway

variable {v : ℚ} {m n : Int}

theorem neg (nearest : NearestAway v n) : NearestAway (-v) (-n) := by
  have mirrored (k : Int) : |-v - k| = |v - (-k : Int)| := by
    rw [← abs_neg]
    push_cast
    congr 1
    ring
  constructor
  · intro m
    rw [mirrored, mirrored, neg_neg]
    exact nearest.near (-m)
  · intro m same
    rw [mirrored, mirrored, neg_neg] at same
    rw [abs_neg, ← abs_neg m]
    exact nearest.away (-m) same

theorem unique (left : NearestAway v m) (right : NearestAway v n) : m = n := by
  have distance : |v - m| = |v - n| := le_antisymm (left.near n) (right.near m)
  have size : |m| = |n| := le_antisymm (right.away m distance) (left.away n distance.symm)
  rcases abs_eq_abs.mp size with same | opposite
  · exact same
  · -- Opposite integers are equally far from zero only, which is nearest to itself.
    rw [opposite, Int.cast_neg, sub_neg_eq_add] at distance
    rcases abs_eq_abs.mp distance with same | mirrored
    · have zero : (n : ℚ) = 0 := by linarith
      have none : n = 0 := by exact_mod_cast zero
      rw [opposite, none, neg_zero]
    · have zero : v = 0 := by linarith
      have near := right.near 0
      rw [zero, Int.cast_zero, sub_zero, abs_zero, zero_sub, abs_neg, abs_nonpos_iff] at near
      have none : n = 0 := by exact_mod_cast near
      rw [opposite, none, neg_zero]

/-- Above zero the integer farther from zero is the greater one. -/
theorem of_nonneg (nonneg : 0 ≤ v) : NearestAway v (round v) := by
  have low := sub_half_lt_round v
  have least : 0 ≤ round v := by
    rw [round_eq]
    exact Int.floor_nonneg.mpr (by linarith)
  refine ⟨round_le v, fun m same => ?_⟩
  have close := abs_le.mp (same.trans_le (abs_sub_round v))
  have atLeast : 0 ≤ m := by
    have above : (-1 : ℚ) < m := by linarith [close.2]
    have aboveInt : -1 < m := by exact_mod_cast above
    omega
  have atMost : m ≤ round v := by
    by_contra greater
    have next : (round v : ℚ) + 1 ≤ m := by exact_mod_cast not_le.mp greater
    linarith [close.1]
  rwa [abs_of_nonneg atLeast, abs_of_nonneg least]

end NearestAway

namespace Real64

/-- The sum with one half is taken for an integer that it does not reach. -/
def Overshoots (x : Real64) : Prop :=
  x.magnitude = 1 / 2 - 1 / 2 ^ 54 ∨
    ∃ k : Nat, 2 ^ 52 ≤ k ∧ k < 2 ^ 53 ∧ k % 2 = 1 ∧ x.magnitude = k

variable {x y : Real64}

/-! ## Magnitudes -/

/-- From `2 ^ 52` on, numbers are integers with significands of full precision. -/
theorem exists_full (large : 2 ^ 52 ≤ x.magnitude) :
    ∃ m q : Nat, 2 ^ 52 ≤ m ∧ m < 2 ^ 53 ∧ x.magnitude = m * 2 ^ q := by
  cases x with
  | nan =>
    change (2 ^ 52 : ℚ) ≤ 0 at large
    norm_num at large
  | signed s rank h =>
    change (2 ^ 52 : ℚ) ≤ Format.binary64.magnitude rank at large
    have placed := Format.magnitude_places (f := .binary64) (by decide) rank
    have whole : 0 ≤ Format.binary64.quantum rank := by
      have reached := large.trans_lt placed.below
      rw [← zpow_natCast, zpow_lt_zpow_iff_right₀ one_lt_two] at reached
      have precision : (Format.binary64.precision : Int) = 53 := rfl
      omega
    have least : Format.binary64.leastQuantum = -1074 := rfl
    refine ⟨Format.binary64.significand rank, (Format.binary64.quantum rank).toNat,
      placed.hidden_le (by decide) (by omega), Format.significand_lt .binary64 rank, ?_⟩
    rw [← zpow_natCast, Int.toNat_of_nonneg whole]
    rfl

section Finite

variable (finite : x.isFinite = true)

include finite

theorem floor_add_half_of_small (below : x.magnitude < 1 / 2)
    (apart : x.magnitude ≠ 1 / 2 - 1 / 2 ^ 54) : ⌊(x.abs + Real64.half).magnitude⌋ = 0 := by
  have nonneg := x.magnitude_nonneg
  refine floor_add_half (k := 0) (t := 53) finite (by decide) (by push_cast; linarith) ?_
  push_cast
  rcases magnitude_lt_or_multiple (by decide) x (-54) with finer | ⟨m, multiple⟩
  · have quarter : (2 : ℚ) ^ (-54 + (Format.binary64.precision : Int) - 1) = 1 / 4 := by
      norm_num [Format.binary64]
    rw [quarter] at finer
    linarith
  · have unit : (2 : ℚ) ^ (-54 : Int) = 1 / 2 ^ 54 := by norm_num
    rw [multiple, unit] at below apart ⊢
    have less : m < 2 ^ 53 := by
      have lessRat : (m : ℚ) < 2 ^ 53 := by linarith
      exact_mod_cast lessRat
    have other : m ≠ 2 ^ 53 - 1 := by
      rintro rfl
      exact apart (by norm_num)
    have further : (m : ℚ) ≤ 2 ^ 53 - 2 := by
      have furtherNat : m + 2 ≤ 2 ^ 53 := by omega
      have furtherRat : (m : ℚ) + 2 ≤ 2 ^ 53 := by exact_mod_cast furtherNat
      linarith
    linarith

/-- The sum is half-way between the predecessor of one and one, which is even. -/
theorem floor_add_half_of_predecessor (last : x.magnitude = 1 / 2 - 1 / 2 ^ 54) :
    ⌊(x.abs + Real64.half).magnitude⌋ = 1 := by
  have sum := rounded_add_half finite
  have half : x.magnitude + 1 / 2 = ((2 ^ 53 - 1 : Nat) + 1 / 2) * 2 ^ (-53 : Int) := by
    rw [last]
    norm_num
  rw [half] at sum
  rw [Rounded.of_half_way (by decide) (by decide) (by decide) sum]
  norm_num

theorem floor_add_half_of_medium (low : 1 / 2 ≤ x.magnitude) (high : x.magnitude < 2 ^ 52) :
    ⌊(x.abs + Real64.half).magnitude⌋ = round x.magnitude := by
  have below := sub_half_lt_round x.magnitude
  have above := round_le_add_half x.magnitude
  have positive : 0 < round x.magnitude := by
    have positiveRat : (0 : ℚ) < round x.magnitude := by linarith
    exact_mod_cast positiveRat
  obtain ⟨k, nearest⟩ := Int.eq_ofNat_of_zero_le positive.le
  rw [nearest] at positive below above ⊢
  rw [Int.cast_natCast] at below above
  rcases lt_or_ge k (2 ^ 52) with small | last
  · exact floor_add_half_of_near finite (by omega) small (by linarith) (by linarith)
  · -- One half below `2 ^ 52` the sum is exact.
    have lastRat : (2 : ℚ) ^ 52 ≤ k := by exact_mod_cast last
    have most : x.magnitude ≤ 2 ^ 52 - 1 / 2 := by
      rcases magnitude_lt_or_multiple (by decide) x (-1) with finer | ⟨m, multiple⟩
      · have power : (2 : ℚ) ^ (-1 + (Format.binary64.precision : Int) - 1) = 2 ^ 51 := by
          norm_num [Format.binary64]
        rw [power] at finer
        linarith
      · rw [zpow_neg_one] at multiple
        have less : (m : ℚ) < 2 ^ 53 := by linarith
        have lessNat : m + 1 ≤ 2 ^ 53 := by exact_mod_cast less
        have mostRat : (m : ℚ) + 1 ≤ 2 ^ 53 := by exact_mod_cast lessNat
        linarith
    have sum := rounded_add_half finite
    have sumLow := natCast_le_of_rounded sum (k := 2 ^ 52) (by decide) (by push_cast; linarith)
    have sumHigh := le_natCast_of_rounded sum (k := 2 ^ 52) (by decide) (by push_cast; linarith)
    have whole : (k : ℚ) = (2 ^ 52 : Nat) := by push_cast; linarith
    rw [le_antisymm sumHigh sumLow, ← whole, Int.floor_natCast]

/-- From `2 ^ 53` on, one half is too little to change a number. -/
theorem floor_add_half_of_coarse {m q : Nat} (full : 2 ^ 52 ≤ m) (small : m < 2 ^ 53)
    (multiple : x.magnitude = m * 2 ^ (q + 1)) :
    ⌊(x.abs + Real64.half).magnitude⌋ = (m * 2 ^ (q + 1) : Nat) := by
  have sum := rounded_add_half finite
  have unit : (1 : ℚ) ≤ 2 ^ q := one_le_pow₀ one_le_two
  have least : Format.binary64.leastQuantum ≤ ((q + 1 : Nat) : Int) := by
    change (-1074 : Int) ≤ _
    omega
  rw [multiple, ← zpow_natCast] at sum
  rw [Rounded.of_near full small least sum (by linarith), zpow_natCast]
  · exact_mod_cast Int.floor_natCast (m * 2 ^ (q + 1))
  · rw [zpow_natCast, add_mul, pow_succ]
    linarith

theorem floor_add_half_of_large (large : 2 ^ 52 ≤ x.magnitude) (kept : ¬x.Overshoots) :
    ⌊(x.abs + Real64.half).magnitude⌋ = round x.magnitude := by
  obtain ⟨m, q, full, small, multiple⟩ := exists_full large
  cases q with
  | zero =>
    rw [pow_zero, mul_one] at multiple
    have even : m % 2 = 0 := by
      by_contra odd
      exact kept (.inr ⟨m, full, small, by omega, multiple⟩)
    rw [floor_add_half_of_wide finite multiple full small, multiple, round_natCast, even,
      Nat.add_zero]
  | succ q =>
    have whole : x.magnitude = (m * 2 ^ (q + 1) : Nat) := by
      push_cast
      exact multiple
    rw [floor_add_half_of_coarse finite full small multiple, whole, round_natCast]

/-- Without overshooting, the sum is cut down to the nearest integer. -/
theorem floor_add_half_of_kept (kept : ¬x.Overshoots) :
    ⌊(x.abs + Real64.half).magnitude⌋ = round x.magnitude := by
  rcases lt_or_ge x.magnitude (1 / 2) with small | low
  · have nonneg := x.magnitude_nonneg
    have zero : round x.magnitude = 0 := round_eq_zero_iff.mpr ⟨by linarith, small⟩
    rw [zero]
    exact floor_add_half_of_small finite small fun last => kept (.inl last)
  · rcases lt_or_ge x.magnitude (2 ^ 52) with high | large
    · exact floor_add_half_of_medium finite low high
    · exact floor_add_half_of_large finite large kept

theorem floor_add_half_of_overshoots (beyond : x.Overshoots) :
    ⌊(x.abs + Real64.half).magnitude⌋ = round x.magnitude + 1 := by
  rcases beyond with last | ⟨k, large, small, odd, whole⟩
  · have zero : round x.magnitude = 0 := by
      rw [round_eq_zero_iff, last]
      constructor <;> norm_num
    rw [floor_add_half_of_predecessor finite last, zero, zero_add]
  · rw [floor_add_half_of_wide finite whole large small, whole, round_natCast, odd]
    rfl

theorem roundHalfAway_of_kept (kept : ¬x.Overshoots) :
    roundHalfAway x = .ok (if x.isNegative then -round x.magnitude else round x.magnitude) := by
  rw [roundHalfAway_eq finite, floor_add_half_of_kept finite kept]

theorem roundHalfAway_of_overshoots (beyond : x.Overshoots) :
    roundHalfAway x =
      .ok (if x.isNegative then -(round x.magnitude + 1) else round x.magnitude + 1) := by
  rw [roundHalfAway_eq finite, floor_add_half_of_overshoots finite beyond]

end Finite

theorem nearestAway_number (x : Real64) :
    NearestAway x.number (if x.isNegative then -round x.magnitude else round x.magnitude) := by
  have nearest := NearestAway.of_nonneg x.magnitude_nonneg
  rw [number_of_leans (Leans.isNegative x)]
  split
  · exact nearest.neg
  · exact nearest

/-! ## Rounded numbers -/

/-- A finite number has its nearest integer, halves away from zero, unless it overshoots: then it is
rounded to the integer after that one. Rounding is odd and keeps the order in either case. -/
theorem half_away_is_nearest {x : Real64} (finite : x.isFinite = true) :
    ∃ n, roundHalfAway x = .ok n ∧
      (NearestAway x.number n ↔ ¬x.Overshoots) ∧
      (x.Overshoots → NearestAway x.number (if x.isNegative then n + 1 else n - 1)) ∧
      roundHalfAway (-x) = .ok (-n) ∧
      ∀ y : Real64, y.isFinite = true → x.number ≤ y.number →
        ∃ m, roundHalfAway y = .ok m ∧ n ≤ m := by
  have nearest := nearestAway_number x
  have ordered {n : Int} (read : roundHalfAway x = .ok n) (y : Real64)
      (otherFinite : y.isFinite = true) (le : x.number ≤ y.number) :
      ∃ m, roundHalfAway y = .ok m ∧ n ≤ m := by
    obtain ⟨m, other⟩ := roundHalfAway_succeeds.mpr otherFinite
    exact ⟨m, other, roundHalfAway_mono le read other⟩
  by_cases beyond : x.Overshoots
  · have read := roundHalfAway_of_overshoots finite beyond
    refine ⟨_, read, iff_of_false (fun reached => ?_) (not_not.mpr beyond), fun _ => ?_,
      roundHalfAway_neg read, ordered read⟩
    · have same := nearest.unique reached
      split at same
      · omega
      · omega
    · convert nearest using 1
      split
      · omega
      · omega
  · have read := roundHalfAway_of_kept finite beyond
    exact ⟨_, read, iff_of_true nearest beyond, fun overshoots => absurd overshoots beyond,
      roundHalfAway_neg read, ordered read⟩

theorem half_away_is_nearest_at_tie :
    ∃ x : Real64, x.isFinite = true ∧ x.number = 5 / 2 ∧ roundHalfAway x = .ok 3 ∧
      NearestAway (5 / 2) 3 ∧ roundHalfAway (-x) = .ok (-3) := by
  have rounded := rounded_fraction (n := 5) (d := 2) (by decide) (by decide)
  have half : ((5 : Nat) : ℚ) / (2 : Nat) = (5 : Nat) * 2 ^ (-1 : Int) := by norm_num
  rw [half] at rounded
  have value : (Real64.ofFraction (5 : Nat) (2 : Nat)).magnitude = 5 / 2 := by
    rw [rounded.exact (by decide) (by decide)]
    norm_num
  have kept : ¬(Real64.ofFraction (5 : Nat) (2 : Nat)).Overshoots := by
    rintro (last | ⟨k, large, -, -, whole⟩)
    · rw [value] at last
      norm_num at last
    · have largeRat : (2 : ℚ) ^ 52 ≤ k := by exact_mod_cast large
      rw [← whole, value] at largeRat
      norm_num at largeRat
  have read : roundHalfAway (Real64.ofFraction (5 : Nat) (2 : Nat)) = .ok 3 := rfl
  obtain ⟨n, found, nearest, -, negated, -⟩ := half_away_is_nearest rounded.isFinite
  cases found.symm.trans read
  rw [rounded.number_eq, value] at nearest
  exact ⟨_, rounded.isFinite, rounded.number_eq.trans value, read, nearest.mpr kept, negated⟩

/-- The predecessor of one half is nearer to zero than to one. -/
theorem predecessor_of_half_is_rounded_up :
    ∃ x : Real64, x.isFinite = true ∧ x.number = 1 / 2 - 1 / 2 ^ 54 ∧
      roundHalfAway x = .ok 1 ∧ ¬NearestAway x.number 1 := by
  have rounded := rounded_fraction (n := 2 ^ 53 - 1) (d := 2 ^ 54) (by decide) (by decide)
  have units : ((2 ^ 53 - 1 : Nat) : ℚ) / (2 ^ 54 : Nat) =
      (2 ^ 53 - 1 : Nat) * 2 ^ (-54 : Int) := by norm_num
  rw [units] at rounded
  have value : (Real64.ofFraction (2 ^ 53 - 1 : Nat) (2 ^ 54 : Nat)).number =
      1 / 2 - 1 / 2 ^ 54 := by
    rw [rounded.number_eq, rounded.exact (by decide) (by decide)]
    norm_num
  refine ⟨_, rounded.isFinite, value, rfl, fun nearest => ?_⟩
  have near := nearest.near 0
  rw [value] at near
  norm_num at near

end Real64

end RasterEdit
