import Mathlib.Algebra.Order.Field.Power
import Mathlib.Data.Nat.Log
import Mathlib.Data.Rat.Cast.Order
import Mathlib.Tactic.FieldSimp
import Mathlib.Tactic.Linarith
import Mathlib.Tactic.Positivity
import Mathlib.Tactic.Ring
import RasterEdit.Binary.Arithmetic

/-!
# Rounding to a format

`Binary.nearestRank` is monotone in the exact magnitude and leaves the magnitudes of the format
where they are. Every bound on a rounded result follows from these two facts and a bound on the
exact one.
-/

set_option autoImplicit false

namespace RasterEdit

/-- The magnitude with the given rank; the one at the top is the power of two that stands for
infinity. -/
def Format.magnitude (f : Format) (rank : Nat) : ℚ := f.significand rank * 2 ^ f.quantum rank

/-! ## Nearest integers -/

/-- `m` is the integer nearest to `x`, the even one of two equally near. -/
structure RoundsTo (x : ℚ) (m : Nat) : Prop where
  le_add_half : x ≤ m + 1 / 2
  sub_half_le : m - 1 / 2 ≤ x
  even_of_eq_add_half : x = m + 1 / 2 → m % 2 = 0
  even_of_eq_sub_half : x = m - 1 / 2 → m % 2 = 0

theorem RoundsTo.natCast (m : Nat) : RoundsTo m m := by
  constructor <;> intros <;> linarith

theorem RoundsTo.mono {x y : ℚ} {m k : Nat} (left : RoundsTo x m) (right : RoundsTo y k)
    (le : x ≤ y) : m ≤ k := by
  by_contra above
  have next : k + 1 ≤ m := by omega
  have nextRat : (k : ℚ) + 1 ≤ m := by exact_mod_cast next
  -- Only a tie at which both integers would be even is left.
  have leftTie : x = m - 1 / 2 := by linarith [left.sub_half_le, right.le_add_half]
  have rightTie : y = k + 1 / 2 := by linarith [left.sub_half_le, right.le_add_half]
  have adjacent : (m : ℚ) = k + 1 := by linarith
  have successor : m = k + 1 := by exact_mod_cast adjacent
  have leftEven := left.even_of_eq_sub_half leftTie
  have rightEven := right.even_of_eq_add_half rightTie
  omega

theorem nearestEven_roundsTo (n : Nat) {d : Nat} (positive : 0 < d) :
    RoundsTo ((n : ℚ) / d) (nearestEven n d) := by
  have split : d * (n / d) + n % d = n := Nat.div_add_mod n d
  have below : n % d < d := Nat.mod_lt n positive
  unfold nearestEven
  generalize n / d = quotient at *
  generalize n % d = remainder at *
  have divisor : (0 : ℚ) < d := by exact_mod_cast positive
  have value : (n : ℚ) / d = quotient + remainder / d := by
    rw [← split]; push_cast; field_simp
  rw [value]
  rcases Nat.lt_trichotomy (2 * remainder) d with down | tie | up
  · have fraction : (remainder : ℚ) / d < 1 / 2 := by
      rw [div_lt_div_iff₀ divisor (by norm_num)]; norm_cast; omega
    have nonneg : 0 ≤ (remainder : ℚ) / d := by positivity
    simp only [down, ↓reduceIte]
    constructor <;> intros <;> linarith
  · have fraction : (remainder : ℚ) / d = 1 / 2 := by
      rw [div_eq_div_iff divisor.ne' (by norm_num)]; norm_cast; omega
    simp only [tie, lt_irrefl, ↓reduceIte, fraction]
    rcases Nat.mod_two_eq_zero_or_one quotient with even | odd
    · rw [even]; constructor <;> intros <;> push_cast at * <;> first | linarith | omega
    · rw [odd]; constructor <;> intros <;> push_cast at * <;> first | linarith | omega
  · have fraction : 1 / 2 < (remainder : ℚ) / d := by
      rw [div_lt_div_iff₀ (by norm_num) divisor]; norm_cast; omega
    have less : (remainder : ℚ) / d < 1 := by
      rw [div_lt_one divisor]; exact_mod_cast below
    simp only [up, Nat.not_lt.mpr up.le, ↓reduceIte]
    constructor <;> intros <;> push_cast at * <;> linarith

/-! ## Exponents -/

theorem shiftLeft_toNat (n : Nat) {k : Int} (nonneg : 0 ≤ k) :
    ((n <<< k.toNat : Nat) : ℚ) = n * 2 ^ k := by
  rw [Nat.shiftLeft_eq]
  push_cast
  rw [← zpow_natCast, Int.toNat_of_nonneg nonneg]

theorem floorLog2_bounds {n d : Nat} (numerator : n ≠ 0) (divisor : d ≠ 0) :
    (2 : ℚ) ^ floorLog2 n d ≤ (n : ℚ) / d ∧ (n : ℚ) / d < 2 ^ (floorLog2 n d + 1) := by
  have nPos : (0 : ℚ) < n := by exact_mod_cast Nat.pos_of_ne_zero numerator
  have dPos : (0 : ℚ) < d := by exact_mod_cast Nat.pos_of_ne_zero divisor
  have nLow : (2 : ℚ) ^ (n.log2 : Int) ≤ n := by exact_mod_cast Nat.log2_self_le numerator
  have nHigh : (n : ℚ) < 2 ^ (n.log2 + 1 : Int) := by exact_mod_cast Nat.lt_log2_self
  have dLow : (2 : ℚ) ^ (d.log2 : Int) ≤ d := by exact_mod_cast Nat.log2_self_le divisor
  have dHigh : (d : ℚ) < 2 ^ (d.log2 + 1 : Int) := by exact_mod_cast Nat.lt_log2_self
  have fits : ∀ k : Int, (if 0 ≤ k then d <<< k.toNat ≤ n else d ≤ n <<< (-k).toNat) ↔
      (2 : ℚ) ^ k ≤ (n : ℚ) / d := by
    intro k
    rw [le_div_iff₀ dPos]
    split
    · next nonneg =>
      rw [← Nat.cast_le (α := ℚ), shiftLeft_toNat d nonneg, mul_comm]
    · next negative =>
      have scale : (0 : ℚ) < 2 ^ k := by positivity
      rw [← Nat.cast_le (α := ℚ), shiftLeft_toNat n (by omega : 0 ≤ -k), zpow_neg,
        ← div_eq_mul_inv, le_div_iff₀ scale, mul_comm]
  have upper : (n : ℚ) / d < 2 ^ ((n.log2 : Int) - d.log2 + 1) := by
    rw [div_lt_iff₀ dPos]
    calc (n : ℚ) < 2 ^ (n.log2 + 1 : Int) := nHigh
      _ = 2 ^ ((n.log2 : Int) - d.log2 + 1) * 2 ^ (d.log2 : Int) := by
        rw [← zpow_add₀ two_ne_zero]; congr 1; omega
      _ ≤ 2 ^ ((n.log2 : Int) - d.log2 + 1) * d := by gcongr
  have lower : (2 : ℚ) ^ ((n.log2 : Int) - d.log2 - 1) ≤ (n : ℚ) / d := by
    rw [le_div_iff₀ dPos]
    calc (2 : ℚ) ^ ((n.log2 : Int) - d.log2 - 1) * d
        ≤ 2 ^ ((n.log2 : Int) - d.log2 - 1) * 2 ^ (d.log2 + 1 : Int) := by gcongr
      _ = 2 ^ (n.log2 : Int) := by rw [← zpow_add₀ two_ne_zero]; congr 1; omega
      _ ≤ n := nLow
  unfold floorLog2
  simp only [fits]
  split
  · next reached => exact ⟨reached, upper⟩
  · next missed => exact ⟨lower, by simpa using missed⟩

/-! ## Where a magnitude is rounded -/

theorem nearestEven_shift_roundsTo (n : Nat) {d : Nat} (positive : 0 < d) (shift : Int) :
    RoundsTo ((n : ℚ) / d / 2 ^ shift)
      (if 0 ≤ shift then nearestEven n (d <<< shift.toNat)
        else nearestEven (n <<< (-shift).toNat) d) := by
  split
  · next nonneg =>
    have value : (n : ℚ) / d / 2 ^ shift = (n : ℚ) / (d <<< shift.toNat : Nat) := by
      rw [shiftLeft_toNat d nonneg, div_div]
    rw [value]
    exact nearestEven_roundsTo n (by rw [Nat.shiftLeft_eq]; positivity)
  · next negative =>
    have value : (n : ℚ) / d / 2 ^ shift = (n <<< (-shift).toNat : Nat) / (d : ℚ) := by
      rw [shiftLeft_toNat n (by omega : 0 ≤ -shift), zpow_neg]; field_simp
    rw [value]
    exact nearestEven_roundsTo _ positive

/-- A format rounds the magnitude `x` to a multiple of `2 ^ quantum`. -/
structure Format.Places (f : Format) (x : ℚ) (quantum : Int) (significand : Nat) : Prop where
  least_le : f.leastQuantum ≤ quantum
  below : x < 2 ^ (quantum + f.precision)
  above : f.leastQuantum < quantum → 2 ^ (quantum + f.precision - 1) ≤ x
  rounds : RoundsTo (x / 2 ^ quantum) significand

/-- The rank that belongs to a significand and a quantum, infinity not yet cut off. -/
def Format.rankAt (f : Format) (quantum : Int) (significand : Nat) : Nat :=
  (quantum - f.leastQuantum).toNat * f.hidden + significand

theorem Format.hidden_pos (f : Format) : 0 < f.hidden := by
  rw [hidden, Nat.one_shiftLeft]; positivity

theorem Format.hidden_cast {f : Format} (precise : 0 < f.precision) :
    (f.hidden : ℚ) = 2 ^ (f.precision - 1 : Int) := by
  have whole : (f.precision - 1 : Int) = (f.precision - 1 : Nat) := by omega
  rw [hidden, Nat.one_shiftLeft, whole, zpow_natCast]
  push_cast
  rfl

theorem nearestRank_places (f : Format) {n d : Nat} (numerator : n ≠ 0) (divisor : d ≠ 0)
    (q : Int) :
    ∃ quantum significand, f.Places ((n : ℚ) / d * 2 ^ q) quantum significand ∧
      Binary.nearestRank f n d q = min (f.rankAt quantum significand) f.top := by
  obtain ⟨low, high⟩ := floorLog2_bounds numerator divisor
  have scale : (0 : ℚ) < 2 ^ q := by positivity
  let target := max (floorLog2 n d + q + 1 - f.precision) f.leastQuantum
  refine ⟨target, _, ⟨le_max_right .., ?_, ?_, ?_⟩, by
    simp only [Binary.nearestRank, numerator, ↓reduceIte]
    rfl⟩
  · calc (n : ℚ) / d * 2 ^ q < 2 ^ (floorLog2 n d + 1) * 2 ^ q := by gcongr
      _ = 2 ^ (floorLog2 n d + 1 + q) := (zpow_add₀ two_ne_zero ..).symm
      _ ≤ 2 ^ (target + f.precision) := by
        apply zpow_le_zpow_right₀ one_le_two; omega
  · intro above
    have normal : target = floorLog2 n d + q + 1 - f.precision := by omega
    calc (2 : ℚ) ^ (target + f.precision - 1) = 2 ^ (floorLog2 n d) * 2 ^ q := by
          rw [← zpow_add₀ two_ne_zero]; congr 1; omega
      _ ≤ (n : ℚ) / d * 2 ^ q := by gcongr
  · have value : (n : ℚ) / d * 2 ^ q / 2 ^ target = (n : ℚ) / d / 2 ^ (target - q) := by
      rw [zpow_sub₀ two_ne_zero]; field_simp
    rw [value]
    exact nearestEven_shift_roundsTo n (Nat.pos_of_ne_zero divisor) (target - q)

theorem Format.Places.significand_le {f : Format} (precise : 0 < f.precision) {x : ℚ}
    {quantum : Int} {significand : Nat} (placed : f.Places x quantum significand) :
    significand ≤ 2 * f.hidden := by
  apply placed.rounds.mono (RoundsTo.natCast _)
  push_cast
  rw [hidden_cast precise, div_le_iff₀ (by positivity)]
  calc x ≤ 2 ^ (quantum + f.precision) := placed.below.le
    _ = 2 ^ (1 + (f.precision - 1 : Int) + quantum) := by congr 1; omega
    _ = 2 * 2 ^ (f.precision - 1 : Int) * 2 ^ quantum := by
      rw [zpow_add₀ two_ne_zero, zpow_add₀ two_ne_zero, zpow_one]

theorem Format.Places.hidden_le {f : Format} (precise : 0 < f.precision) {x : ℚ} {quantum : Int}
    {significand : Nat} (placed : f.Places x quantum significand)
    (normal : f.leastQuantum < quantum) : f.hidden ≤ significand := by
  refine (RoundsTo.natCast f.hidden).mono placed.rounds ?_
  rw [hidden_cast precise, le_div_iff₀ (by positivity), ← zpow_add₀ two_ne_zero]
  calc (2 : ℚ) ^ ((f.precision : Int) - 1 + quantum) = 2 ^ (quantum + f.precision - 1) := by
        congr 1; omega
    _ ≤ x := placed.above normal

/-- Ranks grow with magnitudes, also across a change of the quantum: a significand rounded up to the
next power of two has the rank of that power. -/
theorem Format.Places.rankAt_le {f : Format} (precise : 0 < f.precision) {x y : ℚ}
    {quantum quantum' : Int} {significand significand' : Nat}
    (left : f.Places x quantum significand) (right : f.Places y quantum' significand')
    (le : x ≤ y) : f.rankAt quantum significand ≤ f.rankAt quantum' significand' := by
  rcases lt_trichotomy quantum quantum' with less | rfl | greater
  · have least := left.least_le
    have upper := left.significand_le precise
    have lower := right.hidden_le precise (by omega)
    have steps : (quantum - f.leastQuantum).toNat + 1 ≤ (quantum' - f.leastQuantum).toNat := by
      omega
    have scaled := Nat.mul_le_mul_right f.hidden steps
    rw [Nat.add_mul] at scaled
    unfold rankAt
    omega
  · have scale : (0 : ℚ) < 2 ^ quantum := by positivity
    have step := left.rounds.mono right.rounds (by gcongr)
    unfold rankAt
    omega
  · have least := right.least_le
    have lower := left.above (by omega)
    have powers : (2 : ℚ) ^ (quantum' + f.precision) ≤ 2 ^ (quantum + f.precision - 1) :=
      zpow_le_zpow_right₀ one_le_two (by omega)
    linarith [right.below]

/-! ## Magnitudes of the format -/

theorem Format.significand_lt (f : Format) (rank : Nat) : f.significand rank < 2 * f.hidden := by
  have positive := f.hidden_pos
  have remainder := Nat.mod_lt rank positive
  unfold significand
  split <;> omega

theorem Format.rankAt_self (f : Format) (rank : Nat) :
    f.rankAt (f.quantum rank) (f.significand rank) = rank := by
  have positive := f.hidden_pos
  unfold rankAt quantum significand
  rw [add_sub_cancel_left, Int.toNat_natCast]
  split
  · next subnormal => rw [Nat.div_eq_of_lt subnormal]; omega
  · next normal =>
    have atLeast : 1 ≤ rank / f.hidden := (Nat.one_le_div_iff positive).mpr (by omega)
    have split := Nat.div_add_mod' rank f.hidden
    have shifted : (rank / f.hidden - 1) * f.hidden + f.hidden = rank / f.hidden * f.hidden := by
      rw [← Nat.succ_mul, Nat.succ_eq_add_one, Nat.sub_add_cancel atLeast]
    omega

theorem Format.magnitude_places {f : Format} (precise : 0 < f.precision) (rank : Nat) :
    f.Places (f.magnitude rank) (f.quantum rank) (f.significand rank) := by
  have scale : (0 : ℚ) < 2 ^ f.quantum rank := by positivity
  have hidden := hidden_cast precise
  refine ⟨by unfold quantum; omega, ?_, ?_, ?_⟩
  · have less : (f.significand rank : ℚ) < 2 * f.hidden := by exact_mod_cast f.significand_lt rank
    calc f.magnitude rank < 2 * f.hidden * 2 ^ f.quantum rank := by unfold magnitude; gcongr
      _ = 2 ^ (1 + (f.precision - 1 : Int) + f.quantum rank) := by
        rw [hidden, zpow_add₀ two_ne_zero, zpow_add₀ two_ne_zero, zpow_one]
      _ = 2 ^ (f.quantum rank + f.precision) := by congr 1; omega
  · intro normal
    have atLeast : f.hidden ≤ f.significand rank := by
      unfold quantum at normal
      have large : ¬ rank < f.hidden := fun subnormal => by
        rw [Nat.div_eq_of_lt subnormal] at normal; omega
      simp only [significand, large, ↓reduceIte]
      omega
    have atLeastRat : (f.hidden : ℚ) ≤ f.significand rank := by exact_mod_cast atLeast
    calc (2 : ℚ) ^ (f.quantum rank + f.precision - 1)
        = 2 ^ (f.precision - 1 : Int) * 2 ^ f.quantum rank := by
          rw [← zpow_add₀ two_ne_zero]; congr 1; omega
      _ ≤ f.magnitude rank := by rw [← hidden]; unfold magnitude; gcongr
  · rw [magnitude, mul_div_cancel_right₀ _ scale.ne']
    exact RoundsTo.natCast _

theorem Format.magnitude_mono {f : Format} (precise : 0 < f.precision) {rank rank' : Nat}
    (le : rank ≤ rank') : f.magnitude rank ≤ f.magnitude rank' := by
  by_contra greater
  have reversed := (magnitude_places precise rank').rankAt_le precise
    (magnitude_places precise rank) (not_le.mp greater).le
  rw [rankAt_self, rankAt_self] at reversed
  exact greater (le_of_eq (congrArg f.magnitude (Nat.le_antisymm le reversed)))

namespace Binary

variable {f : Format}

/-- A larger magnitude never rounds to a smaller one. -/
theorem nearestRank_mono (precise : 0 < f.precision) {n d n' d' : Nat} {q q' : Int}
    (divisor : d ≠ 0) (divisor' : d' ≠ 0) (le : (n : ℚ) / d * 2 ^ q ≤ (n' : ℚ) / d' * 2 ^ q') :
    nearestRank f n d q ≤ nearestRank f n' d' q' := by
  by_cases zero : n = 0
  · simp [nearestRank, zero]
  · have positive : (0 : ℚ) < (n : ℚ) / d * 2 ^ q := by
      have nPos := Nat.pos_of_ne_zero zero
      have dPos := Nat.pos_of_ne_zero divisor
      positivity
    have nonzero' : n' ≠ 0 := by
      rintro rfl
      simp at le
      linarith
    obtain ⟨quantum, significand, left, leftRank⟩ := nearestRank_places f zero divisor q
    obtain ⟨quantum', significand', right, rightRank⟩ := nearestRank_places f nonzero' divisor' q'
    have ordered := left.rankAt_le precise right le
    omega

theorem nearestRank_le (precise : 0 < f.precision) {n d rank : Nat} {q : Int} (divisor : d ≠ 0)
    (le : (n : ℚ) / d * 2 ^ q ≤ f.magnitude rank) : nearestRank f n d q ≤ rank := by
  by_cases zero : n = 0
  · simp [nearestRank, zero]
  · obtain ⟨quantum, significand, placed, atRank⟩ := nearestRank_places f zero divisor q
    have ordered := placed.rankAt_le precise (Format.magnitude_places precise rank) le
    rw [Format.rankAt_self] at ordered
    omega

theorem le_nearestRank (precise : 0 < f.precision) {n d rank : Nat} {q : Int} (numerator : n ≠ 0)
    (divisor : d ≠ 0) (inRange : rank ≤ f.top) (le : f.magnitude rank ≤ (n : ℚ) / d * 2 ^ q) :
    rank ≤ nearestRank f n d q := by
  obtain ⟨quantum, significand, placed, atRank⟩ := nearestRank_places f numerator divisor q
  have ordered := (Format.magnitude_places precise rank).rankAt_le precise placed le
  rw [Format.rankAt_self] at ordered
  omega

theorem nearestRank_magnitude (precise : 0 < f.precision) {n d rank : Nat} {q : Int}
    (numerator : n ≠ 0) (divisor : d ≠ 0) (inRange : rank ≤ f.top)
    (exact : (n : ℚ) / d * 2 ^ q = f.magnitude rank) : nearestRank f n d q = rank :=
  Nat.le_antisymm (nearestRank_le precise divisor exact.le)
    (le_nearestRank precise numerator divisor inRange exact.ge)

end Binary

end RasterEdit
