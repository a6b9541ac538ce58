import RasterEdit.Proofs.Binary.Sign

/-!
# Where rounding leaves a format

A magnitude becomes infinite exactly from the point halfway between the greatest finite one and the
next power of two. Below that point a product, a quotient or a sum of finite values is finite, and
significands times powers of two that a format can express are rounded to themselves.
-/

set_option autoImplicit false

namespace RasterEdit

namespace Format

/-- The first magnitude that is rounded to infinity: half a spacing above the greatest finite
one. -/
def overflow (f : Format) : ℚ :=
  2 ^ (f.maxExponent + 1 : Int) - 2 ^ (f.maxExponent - f.precision : Int)

variable {f : Format}

def topQuantum (f : Format) : Int := f.maxExponent + 1 - f.precision

theorem overflow_eq (precise : 0 < f.precision) :
    f.overflow = (2 * f.hidden - 1 / 2) * 2 ^ f.topQuantum := by
  have whole : (2 : ℚ) * 2 ^ (f.precision - 1 : Int) * 2 ^ f.topQuantum =
      2 ^ (f.maxExponent + 1 : Int) := by
    rw [← zpow_one_add₀ two_ne_zero, ← zpow_add₀ two_ne_zero]
    congr 1
    unfold topQuantum
    omega
  have half : (1 / 2 : ℚ) * 2 ^ f.topQuantum = 2 ^ (f.maxExponent - f.precision : Int) := by
    have step : f.topQuantum = 1 + (f.maxExponent - f.precision : Int) := by
      unfold topQuantum
      omega
    rw [step, zpow_one_add₀ two_ne_zero]
    ring
  rw [sub_mul, hidden_cast precise, whole, half, overflow]

theorem rankAt_topQuantum (ranged : 0 < f.maxExponent) (significand : Nat) :
    f.rankAt f.topQuantum significand < f.top ↔ significand < 2 * f.hidden := by
  have steps : (f.topQuantum - f.leastQuantum).toNat + 2 = 2 * f.maxExponent + 1 := by
    unfold topQuantum leastQuantum
    omega
  rw [rankAt, top, ← steps, Nat.add_mul]
  omega

/-- The greatest significand is odd, so a tie above it goes up. -/
theorem Places.significand_lt_iff {x : ℚ} {significand : Nat}
    (placed : f.Places x f.topQuantum significand) (precise : 0 < f.precision) :
    significand < 2 * f.hidden ↔ x < f.overflow := by
  have scale : (0 : ℚ) < 2 ^ f.topQuantum := by positivity
  have positive := f.hidden_pos
  rw [overflow_eq precise, ← div_lt_iff₀ scale]
  constructor
  · intro below
    have bound : (significand : ℚ) + 1 ≤ 2 * f.hidden := by exact_mod_cast below
    refine lt_of_le_of_ne (by linarith [placed.rounds.le_add_half]) ?_
    intro tie
    have greatest : (significand : ℚ) + 1 = 2 * f.hidden := by
      linarith [placed.rounds.le_add_half]
    have odd : significand + 1 = 2 * f.hidden := by exact_mod_cast greatest
    have even := placed.rounds.even_of_eq_add_half (by linarith)
    omega
  · intro below
    have bound : (significand : ℚ) < 2 * f.hidden := by linarith [placed.rounds.sub_half_le]
    exact_mod_cast bound

theorem overflow_bounds (f : Format) :
    (2 : ℚ) ^ (f.maxExponent : Int) ≤ f.overflow ∧ f.overflow < 2 ^ (f.maxExponent + 1 : Int) := by
  have narrow : (2 : ℚ) ^ (f.maxExponent - f.precision : Int) ≤ 2 ^ (f.maxExponent : Int) :=
    zpow_le_zpow_right₀ one_le_two (by omega)
  have fine : (0 : ℚ) < 2 ^ (f.maxExponent - f.precision : Int) := by positivity
  have double : (2 : ℚ) ^ (f.maxExponent + 1 : Int) = 2 ^ (f.maxExponent : Int) * 2 :=
    zpow_add_one₀ two_ne_zero _
  unfold overflow
  constructor <;> linarith

theorem overflow_pos (f : Format) : 0 < f.overflow := by
  have power : (0 : ℚ) < 2 ^ (f.maxExponent : Int) := by positivity
  exact lt_of_lt_of_le power f.overflow_bounds.1

theorem leastQuantum_le_topQuantum (ranged : 0 < f.maxExponent) :
    f.leastQuantum ≤ f.topQuantum := by
  unfold topQuantum leastQuantum
  omega

/-- Below the greatest spacing, even a significand rounded up to a power of two is finite. -/
theorem Places.finite_of_lt {x : ℚ} {quantum : Int} {significand : Nat}
    (placed : f.Places x quantum significand) (precise : 0 < f.precision)
    (ranged : 0 < f.maxExponent) (below : quantum < f.topQuantum) :
    f.rankAt quantum significand < f.top ∧ x < f.overflow := by
  constructor
  · have least := placed.least_le
    have significand_le := placed.significand_le precise
    have steps : (quantum - f.leastQuantum).toNat + 1 ≤
        (f.topQuantum - f.leastQuantum).toNat := by omega
    have scaled := Nat.mul_le_mul_right f.hidden steps
    have positive := f.hidden_pos
    have room := (rankAt_topQuantum ranged f.hidden).mpr (by omega)
    rw [Nat.add_mul] at scaled
    unfold rankAt at *
    omega
  · calc x < 2 ^ (quantum + f.precision) := placed.below
      _ ≤ 2 ^ (f.maxExponent : Int) := by
        apply zpow_le_zpow_right₀ one_le_two
        unfold topQuantum at below
        omega
      _ ≤ f.overflow := f.overflow_bounds.1

theorem Places.infinite_of_gt {x : ℚ} {quantum : Int} {significand : Nat}
    (placed : f.Places x quantum significand) (precise : 0 < f.precision)
    (ranged : 0 < f.maxExponent) (above : f.topQuantum < quantum) :
    f.top ≤ f.rankAt quantum significand ∧ f.overflow ≤ x := by
  have least := leastQuantum_le_topQuantum ranged
  constructor
  · have significand_ge := placed.hidden_le precise (by omega)
    have steps : (f.topQuantum - f.leastQuantum).toNat + 1 ≤
        (quantum - f.leastQuantum).toNat := by omega
    have scaled := Nat.mul_le_mul_right f.hidden steps
    have full := (rankAt_topQuantum ranged (2 * f.hidden)).not.mpr (Nat.lt_irrefl _)
    rw [Nat.add_mul] at scaled
    unfold rankAt at *
    omega
  · calc f.overflow ≤ 2 ^ (f.maxExponent + 1 : Int) := f.overflow_bounds.2.le
      _ ≤ 2 ^ (quantum + f.precision - 1) := by
        apply zpow_le_zpow_right₀ one_le_two
        unfold topQuantum at above
        omega
      _ ≤ x := placed.above (by omega)

theorem Places.rankAt_lt_top_iff {x : ℚ} {quantum : Int} {significand : Nat}
    (placed : f.Places x quantum significand) (precise : 0 < f.precision)
    (ranged : 0 < f.maxExponent) : f.rankAt quantum significand < f.top ↔ x < f.overflow := by
  rcases lt_trichotomy quantum f.topQuantum with below | rfl | above
  · obtain ⟨finite, reached⟩ := placed.finite_of_lt precise ranged below
    exact iff_of_true finite reached
  · rw [rankAt_topQuantum ranged, placed.significand_lt_iff precise]
  · obtain ⟨infinite, passed⟩ := placed.infinite_of_gt precise ranged above
    exact iff_of_false infinite.not_gt passed.not_gt

end Format

namespace Binary

variable {f : Format}

theorem nearestRank_lt_top_iff (precise : 0 < f.precision) (ranged : 0 < f.maxExponent)
    {n d : Nat} (divisor : d ≠ 0) (q : Int) :
    nearestRank f n d q < f.top ↔ (n : ℚ) / d * 2 ^ q < f.overflow := by
  by_cases zero : n = 0
  · subst zero
    rw [nearestRank_zero, Nat.cast_zero, zero_div, zero_mul]
    exact iff_of_true f.top_pos f.overflow_pos
  · obtain ⟨quantum, significand, placed, atRank⟩ := nearestRank_places f zero divisor q
    rw [atRank, ← placed.rankAt_lt_top_iff precise ranged]
    omega

end Binary

/-! ## Magnitudes that a format can express -/

namespace Format

variable {f : Format}

theorem lt_top_iff (precise : 0 < f.precision) (ranged : 0 < f.maxExponent) {rank : Nat}
    (inRange : rank ≤ f.top) : rank < f.top ↔ f.magnitude rank < f.overflow := by
  by_cases zero : rank = 0
  · subst zero
    refine iff_of_true f.top_pos ?_
    rw [magnitude, significand_zero, Nat.cast_zero, zero_mul]
    exact f.overflow_pos
  · have exact : ((f.significand rank : Nat) : ℚ) / (1 : Nat) * 2 ^ f.quantum rank =
        f.magnitude rank := by
      rw [Nat.cast_one, div_one]
      rfl
    have rounded := Binary.nearestRank_magnitude precise (significand_pos zero).ne' one_ne_zero
      inRange exact
    have finite := Binary.nearestRank_lt_top_iff precise ranged (n := f.significand rank)
      one_ne_zero (f.quantum rank)
    rwa [rounded, exact] at finite

def double (f : Format) (rank : Nat) : Nat :=
  if rank < f.hidden then 2 * rank else rank + f.hidden

theorem magnitude_of_lt {m : Nat} (small : m < 2 * f.hidden) :
    f.magnitude m = m * 2 ^ f.leastQuantum := by
  have positive := f.hidden_pos
  have significand_eq : f.significand m = m := by
    unfold significand
    split
    · rfl
    · next normal =>
      rw [Nat.mod_eq_sub_mod (by omega), Nat.mod_eq_of_lt (by omega)]
      omega
  have quantum_eq : f.quantum m = f.leastQuantum := by
    have quotient : m / f.hidden < 2 := Nat.div_lt_of_lt_mul (by omega)
    unfold quantum
    omega
  rw [magnitude, significand_eq, quantum_eq]

theorem magnitude_double (f : Format) (rank : Nat) :
    f.magnitude (f.double rank) = f.magnitude rank * 2 := by
  have positive := f.hidden_pos
  unfold double
  split
  · next subnormal =>
    rw [magnitude_of_lt (m := 2 * rank) (by omega), magnitude_of_lt (m := rank) (by omega)]
    push_cast
    ring
  · next normal =>
    have next : ¬ rank + f.hidden < f.hidden := by omega
    have significand_eq : f.significand (rank + f.hidden) = f.significand rank := by
      simp [significand, normal]
    have quantum_eq : f.quantum (rank + f.hidden) = f.quantum rank + 1 := by
      have atLeast : 1 ≤ rank / f.hidden := (Nat.one_le_div_iff positive).mpr (by omega)
      rw [quantum, quantum, Nat.add_div_right _ positive]
      omega
    rw [magnitude, magnitude, significand_eq, quantum_eq, zpow_add_one₀ two_ne_zero]
    ring

/-- Doubling never leaves the magnitudes that can be expressed. -/
theorem exists_magnitude_mul_pow (f : Format) (rank k : Nat) :
    ∃ doubled, f.magnitude doubled = f.magnitude rank * 2 ^ k := by
  induction k with
  | zero => exact ⟨rank, by ring⟩
  | succ k ih =>
    obtain ⟨doubled, same⟩ := ih
    refine ⟨f.double doubled, ?_⟩
    rw [magnitude_double, same]
    ring

theorem exists_magnitude {m : Nat} {q : Int} (small : m < 2 * f.hidden)
    (inRange : f.leastQuantum ≤ q) : ∃ rank, f.magnitude rank = m * 2 ^ q := by
  obtain ⟨rank, same⟩ := f.exists_magnitude_mul_pow m (q - f.leastQuantum).toNat
  refine ⟨rank, ?_⟩
  rw [same, magnitude_of_lt small, mul_assoc, ← zpow_natCast, ← zpow_add₀ two_ne_zero]
  congr 2
  omega

theorem le_top_of_magnitude_lt (precise : 0 < f.precision) (ranged : 0 < f.maxExponent)
    {rank : Nat} (below : f.magnitude rank < f.overflow) : rank < f.top := by
  by_contra above
  have ordered := magnitude_mono precise (not_lt.mp above)
  exact Nat.lt_irrefl _ ((lt_top_iff precise ranged (Nat.le_refl _)).mpr (by linarith))

theorem magnitude_nonneg (f : Format) (rank : Nat) : 0 ≤ f.magnitude rank := by
  unfold magnitude
  positivity

theorem magnitude_div (f : Format) (a b : Nat) :
    (f.significand a : ℚ) / f.significand b * 2 ^ (f.quantum a - f.quantum b) =
      f.magnitude a / f.magnitude b := by
  rw [zpow_sub₀ two_ne_zero, div_mul_div_comm, magnitude, magnitude]

end Format

/-! ## Finite results -/

namespace Binary

variable {f : Format}

/-- The magnitude of a number, that of infinity being the power of two next to the finite ones. -/
def magnitude : Binary f → ℚ
  | .nan => 0
  | .signed _ rank _ => f.magnitude rank

theorem magnitude_nonneg (x : Binary f) : 0 ≤ x.magnitude := by
  cases x with
  | nan => exact le_refl 0
  | signed s rank h => exact f.magnitude_nonneg rank

theorem magnitude_abs (x : Binary f) : x.abs.magnitude = x.magnitude := by
  cases x <;> rfl

theorem isFinite_abs (x : Binary f) : x.abs.isFinite = x.isFinite := by
  cases x <;> rfl

theorem isZero_of_magnitude_pos {x : Binary f} (positive : 0 < x.magnitude) :
    x.isZero = false := by
  cases x with
  | nan => rfl
  | signed s rank h =>
    by_contra zero
    rw [Bool.not_eq_false, isZero_signed] at zero
    rw [magnitude, zero, Format.magnitude, Format.significand_zero, Nat.cast_zero,
      zero_mul] at positive
    exact lt_irrefl _ positive

theorem magnitude_of_isZero {x : Binary f} (zero : x.isZero = true) : x.magnitude = 0 := by
  by_contra nonzero
  have positive := lt_of_le_of_ne x.magnitude_nonneg (Ne.symm nonzero)
  rw [isZero_of_magnitude_pos positive] at zero
  cases zero

theorem exists_of_isFinite {x : Binary f} (finite : x.isFinite = true) :
    ∃ s rank, ∃ below : rank < f.top, x = signed s rank below.le := by
  cases x with
  | nan => cases finite
  | signed s rank h => exact ⟨s, rank, (isFinite_signed ..).mp finite, rfl⟩

theorem mul_finite {s t : Bool} {a b : Nat} (ha : a < f.top) (hb : b < f.top) :
    signed s a ha.le * signed t b hb.le =
      round f (s != t) (f.significand a * f.significand b) 1 (f.quantum a + f.quantum b) := by
  change Binary.mul _ _ = _
  simp only [Binary.mul, ha.ne, hb.ne, or_self, ↓reduceIte]

theorem div_finite {s t : Bool} {a b : Nat} (ha : a < f.top) (hb : b < f.top) (nonzero : b ≠ 0) :
    signed s a ha.le / signed t b hb.le =
      round f (s != t) (f.significand a) (f.significand b) (f.quantum a - f.quantum b) := by
  change Binary.div _ _ = _
  simp only [Binary.div, ha.ne, hb.ne, nonzero, ↓reduceIte]

theorem isFinite_left_of_mul {x y : Binary f} (finite : (x * y).isFinite = true) :
    x.isFinite = true := by
  change (Binary.mul x y).isFinite = true at finite
  cases x with
  | nan => cases finite
  | signed s a ha =>
    cases y with
    | nan => cases finite
    | signed t b hb =>
      rw [isFinite_signed]
      refine Nat.lt_of_le_of_ne ha ?_
      rintro rfl
      simp only [Binary.mul, true_or, ↓reduceIte] at finite
      split at finite
      · cases finite
      · simp [infinity] at finite

theorem isFinite_right_of_mul {x y : Binary f} (finite : (x * y).isFinite = true) :
    y.isFinite = true := by
  rw [mul_comm] at finite
  exact isFinite_left_of_mul finite

theorem isFinite_left_of_add {x y : Binary f} (finite : (x + y).isFinite = true) :
    x.isFinite = true := by
  change (Binary.add x y).isFinite = true at finite
  cases x with
  | nan => cases finite
  | signed s a ha =>
    cases y with
    | nan => cases finite
    | signed t b hb =>
      rw [isFinite_signed]
      refine Nat.lt_of_le_of_ne ha ?_
      rintro rfl
      simp only [Binary.add, ↓reduceIte] at finite
      split at finite
      · cases finite
      · simp at finite

section Regular

variable (precise : 0 < f.precision) (ranged : 0 < f.maxExponent)

include precise ranged

theorem magnitude_lt_overflow {x : Binary f} (finite : x.isFinite = true) :
    x.magnitude < f.overflow := by
  obtain ⟨s, rank, below, rfl⟩ := exists_of_isFinite finite
  exact (Format.lt_top_iff precise ranged below.le).mp below

theorem isFinite_round (s : Bool) (n : Nat) {d : Nat} (divisor : d ≠ 0) (q : Int) :
    (round f s n d q).isFinite = true ↔ (n : ℚ) / d * 2 ^ q < f.overflow := by
  rw [round, isFinite_signed]
  exact nearestRank_lt_top_iff precise ranged divisor q

theorem isFinite_ofInt (n : Int) :
    (ofInt f n).isFinite = true ↔ (n.natAbs : ℚ) < f.overflow := by
  rw [ofInt, isFinite_round precise ranged _ _ one_ne_zero]
  simp

theorem isFinite_ofFraction (n : Int) {d : Int} (divisor : d ≠ 0) :
    (ofFraction f n d).isFinite = true ↔ (n.natAbs : ℚ) / d.natAbs < f.overflow := by
  rw [ofFraction, isFinite_round precise ranged _ _ (Int.natAbs_ne_zero.mpr divisor)]
  simp

theorem isFinite_mul {x y : Binary f} (left : x.isFinite = true) (right : y.isFinite = true) :
    (x * y).isFinite = true ↔ x.magnitude * y.magnitude < f.overflow := by
  obtain ⟨s, a, ha, rfl⟩ := exists_of_isFinite left
  obtain ⟨t, b, hb, rfl⟩ := exists_of_isFinite right
  rw [mul_finite ha hb, isFinite_round precise ranged _ _ one_ne_zero, Format.magnitude_mul]
  rfl

theorem isFinite_div {x y : Binary f} (left : x.isFinite = true) (right : y.isFinite = true)
    (divisor : y.isZero = false) :
    (x / y).isFinite = true ↔ x.magnitude / y.magnitude < f.overflow := by
  obtain ⟨s, a, ha, rfl⟩ := exists_of_isFinite left
  obtain ⟨t, b, hb, rfl⟩ := exists_of_isFinite right
  have nonzero : b ≠ 0 := by simpa [isZero] using divisor
  rw [div_finite ha hb nonzero,
    isFinite_round precise ranged _ _ (Format.significand_pos nonzero).ne', f.magnitude_div]
  rfl

/-- Operands that cannot overflow together have a finite sum, whatever their signs are. -/
theorem isFinite_add {x y : Binary f} (left : x.isFinite = true) (right : y.isFinite = true)
    (below : x.magnitude + y.magnitude < f.overflow) : (x + y).isFinite = true := by
  obtain ⟨s, a, ha, rfl⟩ := exists_of_isFinite left
  obtain ⟨t, b, hb, rfl⟩ := exists_of_isFinite right
  rw [add_finite ha hb]
  simp only
  split
  · exact isFinite_of_isZero rfl
  · rw [isFinite_round precise ranged _ _ one_ne_zero]
    generalize common : min (f.quantum a) (f.quantum b) = q
    have leftUnits : (units f a q : ℚ) * 2 ^ q = f.magnitude a := units_value f (by omega)
    have rightUnits : (units f b q : ℚ) * 2 ^ q = f.magnitude b := units_value f (by omega)
    have scale : (0 : ℚ) < 2 ^ q := by positivity
    have total : (signedUnits s (units f a q) + signedUnits t (units f b q)).natAbs ≤
        units f a q + units f b q := by
      unfold signedUnits
      split <;> split <;> omega
    have totalRat : ((signedUnits s (units f a q) + signedUnits t (units f b q)).natAbs : ℚ) ≤
        units f a q + units f b q := by exact_mod_cast total
    calc ((signedUnits s (units f a q) + signedUnits t (units f b q)).natAbs : ℚ) / (1 : Nat) *
          2 ^ q ≤ (units f a q + units f b q) * 2 ^ q := by
          rw [Nat.cast_one, div_one]
          gcongr
      _ = f.magnitude a + f.magnitude b := by rw [add_mul, leftUnits, rightUnits]
      _ < f.overflow := below

/-- What a format can express is rounded to itself. -/
theorem magnitude_round {s : Bool} {n d rank : Nat} {q : Int} (divisor : d ≠ 0)
    (exact : (n : ℚ) / d * 2 ^ q = f.magnitude rank) (below : f.magnitude rank < f.overflow) :
    (round f s n d q).magnitude = f.magnitude rank := by
  by_cases zero : n = 0
  · subst zero
    rw [round, magnitude, nearestRank_zero, ← exact, Format.magnitude, Format.significand_zero]
    ring
  · have inRange := (Format.le_top_of_magnitude_lt precise ranged below).le
    rw [round, magnitude, nearestRank_magnitude precise zero divisor inRange exact]

theorem magnitude_div {x y : Binary f} {rank : Nat} (left : x.isFinite = true)
    (right : y.isFinite = true) (divisor : y.isZero = false)
    (exact : x.magnitude / y.magnitude = f.magnitude rank)
    (below : f.magnitude rank < f.overflow) : (x / y).magnitude = f.magnitude rank := by
  obtain ⟨s, a, ha, rfl⟩ := exists_of_isFinite left
  obtain ⟨t, b, hb, rfl⟩ := exists_of_isFinite right
  have nonzero : b ≠ 0 := by simpa [isZero] using divisor
  rw [div_finite ha hb nonzero]
  apply magnitude_round precise ranged (Format.significand_pos nonzero).ne' _ below
  rw [f.magnitude_div]
  exact exact

end Regular

section Bounds

variable (precise : 0 < f.precision)

include precise

theorem magnitude_round_le {s : Bool} {n d : Nat} {q k : Int} (divisor : d ≠ 0)
    (inRange : f.leastQuantum ≤ k) (bound : (n : ℚ) / d * 2 ^ q ≤ 2 ^ k) :
    (round f s n d q).magnitude ≤ 2 ^ k := by
  have unit : 1 < 2 * f.hidden := by
    have := f.hidden_pos
    omega
  obtain ⟨rank, power⟩ := Format.exists_magnitude unit inRange
  rw [Nat.cast_one, one_mul] at power
  rw [← power] at bound ⊢
  exact Format.magnitude_mono precise (nearestRank_le precise divisor bound)

theorem magnitude_mul_le {x y : Binary f} {k : Int} (left : x.isFinite = true)
    (right : y.isFinite = true) (inRange : f.leastQuantum ≤ k)
    (bound : x.magnitude * y.magnitude ≤ 2 ^ k) : (x * y).magnitude ≤ 2 ^ k := by
  obtain ⟨s, a, ha, rfl⟩ := exists_of_isFinite left
  obtain ⟨t, b, hb, rfl⟩ := exists_of_isFinite right
  rw [mul_finite ha hb]
  apply magnitude_round_le precise one_ne_zero inRange
  rwa [Format.magnitude_mul]

end Bounds

end Binary

/-! ## Integers in binary64 -/

namespace Real64

open Binary

theorem overflow_eq : Format.binary64.overflow = (2 ^ 54 - 1) * 2 ^ 970 := by
  have powers : Format.binary64.overflow = 2 ^ 1024 - 2 ^ 970 := by
    norm_num [Format.overflow, Format.binary64]
  have split : (2 : ℚ) ^ 1024 = 2 ^ 54 * 2 ^ 970 := by rw [← pow_add]
  rw [powers, split, sub_one_mul]

theorem overflow_lt_two_pow : Format.binary64.overflow < 2 ^ (1024 : Int) := by
  norm_num [Format.overflow, Format.binary64]

theorem two_pow_lt_overflow {k : Nat} (inRange : k ≤ 1023) :
    (2 : ℚ) ^ k < Format.binary64.overflow := by
  have unit : (0 : ℚ) < 2 ^ 970 := by positivity
  calc (2 : ℚ) ^ k ≤ 2 ^ 1023 := pow_le_pow_right₀ one_le_two inRange
    _ = 2 ^ 53 * 2 ^ 970 := by rw [← pow_add]
    _ < (2 ^ 54 - 1) * 2 ^ 970 := by gcongr; norm_num
    _ = Format.binary64.overflow := overflow_eq.symm

/-- Integers of up to 53 bits are expressed exactly. -/
theorem magnitude_ofInt {n : Int} (small : n.natAbs < 2 ^ 53) :
    (Real64.ofInt n).magnitude = n.natAbs := by
  obtain ⟨rank, exact⟩ := Format.exists_magnitude (f := .binary64) (q := 0) small (by decide)
  have value : (n.natAbs : ℚ) / (1 : Nat) * 2 ^ (0 : Int) = Format.binary64.magnitude rank := by
    rw [exact]
    norm_num
  have below : Format.binary64.magnitude rank < Format.binary64.overflow := by
    rw [exact, zpow_zero, mul_one]
    calc (n.natAbs : ℚ) < 2 ^ 53 := by exact_mod_cast small
      _ < Format.binary64.overflow := two_pow_lt_overflow (by decide)
  rw [Real64.ofInt, Binary.ofInt, magnitude_round (by decide) (by decide) one_ne_zero value below,
    exact]
  norm_num

theorem isFinite_ofInt_iff (n : Int) :
    (Real64.ofInt n).isFinite = true ↔ (n.natAbs : ℚ) < Format.binary64.overflow :=
  Binary.isFinite_ofInt (by decide) (by decide) n

theorem isFinite_of_small {n : Int} (small : n.natAbs < 2 ^ 53) :
    (Real64.ofInt n).isFinite = true := by
  rw [isFinite_ofInt_iff]
  calc (n.natAbs : ℚ) < 2 ^ 53 := by exact_mod_cast small
    _ < Format.binary64.overflow := two_pow_lt_overflow (by decide)

/-- Adding one half to the greatest finite number does not reach infinity. -/
theorem magnitude_add_half_lt {x : Real64} (finite : x.isFinite = true) :
    x.magnitude + 1 / 2 < Format.binary64.overflow := by
  have greatest : Format.binary64.magnitude (Format.binary64.top - 1) =
      (2 ^ 53 - 1) * 2 ^ 971 := by
    have significand : Format.binary64.significand (Format.binary64.top - 1) = 2 ^ 53 - 1 := by
      decide
    have quantum : Format.binary64.quantum (Format.binary64.top - 1) = 971 := by decide
    rw [Format.magnitude, significand, quantum]
    norm_num
  have apart (unit : ℚ) (large : 1 ≤ unit) :
      (2 ^ 53 - 1) * (2 * unit) + 1 / 2 < (2 ^ 54 - 1) * unit := by linarith
  obtain ⟨s, rank, below, rfl⟩ := exists_of_isFinite finite
  have bound : Format.binary64.magnitude rank ≤ (2 ^ 53 - 1) * 2 ^ 971 := by
    rw [← greatest]
    exact Format.magnitude_mono (by decide) (by omega)
  calc Format.binary64.magnitude rank + 1 / 2 ≤ (2 ^ 53 - 1) * 2 ^ 971 + 1 / 2 := by gcongr
    _ = (2 ^ 53 - 1) * (2 * 2 ^ 970) + 1 / 2 := by rw [pow_succ' (2 : ℚ) 970]
    _ < (2 ^ 54 - 1) * 2 ^ 970 := apart _ (one_le_pow₀ one_le_two)
    _ = Format.binary64.overflow := overflow_eq.symm

end Real64

end RasterEdit
