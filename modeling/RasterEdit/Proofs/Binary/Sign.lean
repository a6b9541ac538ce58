import RasterEdit.Proofs.Binary.Rounding

/-!
# Signs and zeros of results

Which operations give a zero, and which sign a result has that is none. Nothing here asks how large
the operands are, so infinities and NaN are covered wherever finiteness is not assumed.
-/

set_option autoImplicit false

namespace RasterEdit

theorem Format.top_pos (f : Format) : 0 < f.top := by
  have positive := f.hidden_pos
  unfold top
  positivity

theorem Format.significand_pos {f : Format} {rank : Nat} (nonzero : rank ≠ 0) :
    0 < f.significand rank := by
  have positive := f.hidden_pos
  unfold significand
  split <;> omega

theorem Format.significand_zero (f : Format) : f.significand 0 = 0 := by
  simp [significand, f.hidden_pos]

theorem Format.leastQuantum_le (f : Format) (rank : Nat) : f.leastQuantum ≤ f.quantum rank := by
  unfold quantum
  omega

theorem Format.magnitude_one (f : Format) : f.magnitude 1 = 2 ^ f.leastQuantum := by
  have positive := f.hidden_pos
  rcases Nat.lt_or_ge 1 f.hidden with subnormal | normal
  · simp [magnitude, significand, quantum, subnormal, Nat.div_eq_of_lt subnormal]
  · have hidden : f.hidden = 1 := by omega
    simp [magnitude, significand, quantum, hidden]

theorem Format.magnitude_mul (f : Format) (a b : Nat) :
    ((f.significand a * f.significand b : Nat) : ℚ) / (1 : Nat) * 2 ^ (f.quantum a + f.quantum b) =
      f.magnitude a * f.magnitude b := by
  rw [zpow_add₀ two_ne_zero, magnitude, magnitude]
  push_cast
  ring

namespace Binary

variable {f : Format}

/-- NaN, a zero of either sign, or a value of the given sign. -/
def Leans (negative : Bool) : Binary f → Prop
  | .nan => True
  | .signed s rank _ => rank = 0 ∨ s = negative

/-- The same number: equal, or zeros whose signs may differ. -/
def Same (x y : Binary f) : Prop := x = y ∨ (x.isZero = true ∧ y.isZero = true)

theorem Same.trans {x y z : Binary f} (first : Same x y) (second : Same y z) : Same x z := by
  rcases first with rfl | ⟨zeroX, zeroY⟩
  · exact second
  · rcases second with rfl | ⟨-, zeroZ⟩
    · exact .inr ⟨zeroX, zeroY⟩
    · exact .inr ⟨zeroX, zeroZ⟩

theorem Same.eq_of_nonzero {x y : Binary f} (same : Same x y) (nonzero : y.isZero = false) :
    x = y := by
  rcases same with rfl | ⟨-, zero⟩
  · rfl
  · rw [zero] at nonzero
    cases nonzero

theorem Same.isZero {x y : Binary f} (same : Same x y) (zero : y.isZero = true) :
    x.isZero = true := by
  rcases same with rfl | ⟨zero, -⟩
  · exact zero
  · exact zero

/-- A zero, or the NaN that a zero times an infinity gives. -/
def Vanishes (x : Binary f) : Prop := x = .nan ∨ x.isZero = true

@[simp] theorem isZero_signed (s : Bool) (rank : Nat) (h : rank ≤ f.top) :
    (signed s rank h).isZero = true ↔ rank = 0 := by
  simp [isZero]

@[simp] theorem isFinite_signed (s : Bool) (rank : Nat) (h : rank ≤ f.top) :
    (signed s rank h).isFinite = true ↔ rank < f.top := by
  simp [isFinite]

theorem exists_parts {x : Binary f} (finite : x.isFinite = true) :
    ∃ m q, x.parts? = some (m, q) := by
  cases x with
  | nan => cases finite
  | signed s rank h =>
    rw [isFinite_signed] at finite
    exact ⟨_, _, if_pos finite⟩

theorem isFinite_of_isZero {x : Binary f} (zero : x.isZero = true) : x.isFinite = true := by
  cases x with
  | nan => cases zero
  | signed s rank h =>
    rw [isZero_signed] at zero
    rw [isFinite_signed, zero]
    exact f.top_pos

theorem Same.isFinite {x y : Binary f} (same : Same x y) (finite : y.isFinite = true) :
    x.isFinite = true := by
  rcases same with rfl | ⟨zero, -⟩
  · exact finite
  · exact isFinite_of_isZero zero

theorem nearestRank_pos (precise : 0 < f.precision) {n : Nat} {q : Int} (numerator : n ≠ 0)
    (inRange : f.leastQuantum ≤ q) : nearestRank f n 1 q ≠ 0 := by
  have atLeast : 1 ≤ nearestRank f n 1 q := by
    apply le_nearestRank precise numerator one_ne_zero f.top_pos
    have one : (1 : ℚ) ≤ n := by exact_mod_cast Nat.one_le_iff_ne_zero.mpr numerator
    have power : (2 : ℚ) ^ f.leastQuantum ≤ 2 ^ q := zpow_le_zpow_right₀ one_le_two inRange
    rw [Format.magnitude_one, Nat.cast_one, div_one]
    calc (2 : ℚ) ^ f.leastQuantum = 1 * 2 ^ f.leastQuantum := (one_mul _).symm
      _ ≤ n * 2 ^ q := by gcongr
  omega

theorem nearestRank_zero (f : Format) (d : Nat) (q : Int) : nearestRank f 0 d q = 0 := by
  simp [nearestRank]

/-! ## Signs -/

theorem Leans.of_isZero {x : Binary f} (zero : x.isZero = true) (negative : Bool) :
    Leans negative x := by
  cases x with
  | nan => trivial
  | signed s rank h => exact .inl ((isZero_signed ..).mp zero)

theorem Leans.isNegative (x : Binary f) : Leans x.isNegative x := by
  cases x with
  | nan => trivial
  | signed s rank h => exact .inr rfl

theorem isZero_neg (x : Binary f) : (-x).isZero = x.isZero := by
  cases x <;> rfl

theorem Leans.neg {negative : Bool} {x : Binary f} (leans : Leans negative x) :
    Leans (!negative) (-x) := by
  cases x with
  | nan => trivial
  | signed s rank h => exact leans.imp id (congrArg (!·))

theorem Leans.same {negative : Bool} {x y : Binary f} (same : Same x y) (leans : Leans negative y) :
    Leans negative x := by
  rcases same with rfl | ⟨zero, -⟩
  · exact leans
  · exact .of_isZero zero negative

theorem Leans.mul {a b : Bool} {x y : Binary f} (left : Leans a x) (right : Leans b y) :
    Leans (a != b) (x * y) := by
  change Leans (a != b) (Binary.mul x y)
  cases x with
  | nan => trivial
  | signed s rank h =>
    cases y with
    | nan => trivial
    | signed t rank' h' =>
      simp only [Binary.mul]
      split
      · split
        · trivial
        · next nonzero =>
          rw [not_or] at nonzero
          exact .inr (by rw [left.resolve_left nonzero.1, right.resolve_left nonzero.2])
      · rcases left with rfl | rfl
        · exact .inl (by rw [Format.significand_zero, Nat.zero_mul, nearestRank_zero])
        · rcases right with rfl | rfl
          · exact .inl (by rw [Format.significand_zero, Nat.mul_zero, nearestRank_zero])
          · exact .inr rfl

theorem Leans.abs (x : Binary f) : Leans false x.abs := by
  cases x with
  | nan => trivial
  | signed s rank h => exact .inr rfl

/-- The sign of a divisor that is zero would not be known. -/
theorem Leans.div {a b : Bool} {x y : Binary f} (left : Leans a x) (right : Leans b y)
    (divisor : y.isZero = false) : Leans (a != b) (x / y) := by
  change Leans (a != b) (Binary.div x y)
  cases x with
  | nan => trivial
  | signed s rank h =>
    cases y with
    | nan => trivial
    | signed t rank' h' =>
      have nonzero : rank' ≠ 0 := by simpa [isZero] using divisor
      obtain rfl : t = b := right.resolve_left nonzero
      have signed (large : rank ≠ 0) : (s != t) = (a != t) := by rw [left.resolve_left large]
      simp only [Binary.div]
      split
      · next infinite =>
        split
        · trivial
        · exact .inr (signed (infinite ▸ f.top_pos.ne'))
      · split
        · exact .inl rfl
        · rcases left with rfl | rfl
          · exact .inl (by rw [Format.significand_zero, nearestRank_zero])
          · exact .inr rfl

/-! ## Sums -/

/-- A magnitude counted in units of `2 ^ common`. -/
def units (f : Format) (rank : Nat) (common : Int) : Nat :=
  f.significand rank <<< (f.quantum rank - common).toNat

theorem units_value (f : Format) {rank : Nat} {common : Int} (le : common ≤ f.quantum rank) :
    (units f rank common : ℚ) * 2 ^ common = f.magnitude rank := by
  rw [units, shiftLeft_toNat _ (by omega), mul_assoc, ← zpow_add₀ two_ne_zero, sub_add_cancel]
  rfl

theorem units_zero (f : Format) (common : Int) : units f 0 common = 0 := by
  rw [units, f.significand_zero, Nat.zero_shiftLeft]

theorem units_pos {f : Format} {rank : Nat} (nonzero : rank ≠ 0) (common : Int) :
    0 < units f rank common := by
  rw [units, Nat.shiftLeft_eq]
  exact Nat.mul_pos (Format.significand_pos nonzero) (Nat.two_pow_pos _)

def signedUnits (negative : Bool) (n : Nat) : Int := if negative then -n else n

theorem add_finite {s t : Bool} {a b : Nat} (ha : a < f.top) (hb : b < f.top) :
    signed s a ha.le + signed t b hb.le =
      let common := min (f.quantum a) (f.quantum b)
      let total := signedUnits s (units f a common) + signedUnits t (units f b common)
      if total = 0 then zero (s && t) else round f (total < 0) total.natAbs 1 common := by
  change Binary.add _ _ = _
  simp only [Binary.add, ha.ne, hb.ne, ↓reduceIte]
  rfl

theorem add_comm (x y : Binary f) : x + y = y + x := by
  change Binary.add x y = Binary.add y x
  cases x with
  | nan => cases y <;> rfl
  | signed s a ha =>
    cases y with
    | nan => rfl
    | signed t b hb =>
      by_cases aTop : a = f.top
      · by_cases bTop : b = f.top
        · cases s <;> cases t <;> simp [Binary.add, aTop, bTop]
        · simp [Binary.add, aTop, bTop]
      · by_cases bTop : b = f.top
        · simp [Binary.add, aTop, bTop]
        · have finiteA : a < f.top := by omega
          have finiteB : b < f.top := by omega
          have sum := add_finite (s := s) (t := t) finiteA finiteB
          have reversed := add_finite (s := t) (t := s) finiteB finiteA
          refine sum.trans (Eq.trans ?_ reversed.symm)
          simp only [min_comm (f.quantum b), Bool.and_comm t, Int.add_comm (signedUnits t _)]

theorem Leans.add {negative : Bool} {x y : Binary f} (left : Leans negative x)
    (right : Leans negative y) : Leans negative (x + y) := by
  cases x with
  | nan => trivial
  | signed s a ha =>
    cases y with
    | nan => trivial
    | signed t b hb =>
      by_cases aTop : a = f.top
      · change Leans negative (Binary.add _ _)
        simp only [Binary.add, aTop, ↓reduceIte]
        split
        · trivial
        · exact aTop ▸ left
      · by_cases bTop : b = f.top
        · change Leans negative (Binary.add _ _)
          simp only [Binary.add, aTop, bTop, ↓reduceIte]
          exact bTop ▸ right
        · rw [add_finite (by omega) (by omega)]
          simp only
          generalize min (f.quantum a) (f.quantum b) = common
          split
          · exact .inl rfl
          · next total =>
            right
            have signOf {t : Bool} {b : Nat} (one : b = 0 ∨ t = negative) :
                signedUnits t (units f b common) = signedUnits negative (units f b common) := by
              rcases one with rfl | rfl
              · rw [units_zero]; unfold signedUnits; split <;> split <;> rfl
              · rfl
            rw [signOf left, signOf right] at total ⊢
            unfold signedUnits at total ⊢
            cases negative
            · simp only [Bool.false_eq_true, ↓reduceIte, decide_eq_false_iff_not] at total ⊢
              omega
            · simp only [↓reduceIte, decide_eq_true_eq] at total ⊢
              omega

/-- Operands of one sign do not cancel. -/
theorem isZero_add_of_leans (precise : 0 < f.precision) {negative : Bool} {rank : Nat}
    (h : rank ≤ f.top) (nonzero : rank ≠ 0) {y : Binary f} (leans : Leans negative y) :
    (signed negative rank h + y).isZero = false := by
  cases y with
  | nan => rfl
  | signed t rank' h' =>
    have top := f.top_pos
    by_cases large : rank = f.top
    · change (Binary.add _ _).isZero = false
      simp only [Binary.add, large, ↓reduceIte]
      split
      · rfl
      · simp only [isZero, beq_eq_false_iff_ne]; omega
    · by_cases large' : rank' = f.top
      · change (Binary.add _ _).isZero = false
        simp only [Binary.add, large, large', ↓reduceIte, isZero, beq_eq_false_iff_ne]
        omega
      · rw [add_finite (by omega) (by omega)]
        simp only
        generalize common : min (f.quantum rank) (f.quantum rank') = q
        have inRange : f.leastQuantum ≤ q := by
          have left := f.leastQuantum_le rank
          have right := f.leastQuantum_le rank'
          omega
        have positive := units_pos (f := f) nonzero q
        have total :
            signedUnits negative (units f rank q) + signedUnits t (units f rank' q) ≠ 0 := by
          rcases leans with rfl | rfl
          · rw [units_zero]; unfold signedUnits; split <;> split <;> omega
          · unfold signedUnits; split <;> omega
        rw [if_neg total]
        have rounded := nearestRank_pos precise (Int.natAbs_ne_zero.mpr total) inRange
        simpa [round, isZero] using rounded

/-- A finite value is the rounding of its own units. -/
theorem round_signedUnits (precise : 0 < f.precision) {s : Bool} {rank : Nat} (h : rank < f.top)
    (nonzero : rank ≠ 0) {common : Int} (le : common ≤ f.quantum rank) :
    round f (signedUnits s (units f rank common) < 0) (signedUnits s (units f rank common)).natAbs 1
      common = signed s rank h.le := by
  have positive := units_pos (f := f) nonzero common
  have magnitude : (signedUnits s (units f rank common)).natAbs = units f rank common := by
    unfold signedUnits; split <;> omega
  have sign : decide (signedUnits s (units f rank common) < 0) = s := by
    cases s
    · simp [signedUnits]
    · simp [signedUnits]; omega
  have exact : nearestRank f (units f rank common) 1 common = rank :=
    nearestRank_magnitude precise positive.ne' one_ne_zero h.le (by
      rw [Nat.cast_one, div_one, units_value f le])
  simp only [round, sign, magnitude, exact]

theorem add_zero_same (precise : 0 < f.precision) {x z : Binary f} (finite : x.isFinite = true)
    (zero : z.isZero = true) : Same (x + z) x := by
  cases x with
  | nan => cases finite
  | signed s a ha =>
    cases z with
    | nan => cases zero
    | signed t b hb =>
      have top := f.top_pos
      rw [isFinite_signed] at finite
      rw [isZero_signed] at zero
      subst zero
      rw [add_finite finite top]
      simp only [units_zero]
      have none : signedUnits t 0 = 0 := by unfold signedUnits; split <;> rfl
      rw [none, Int.add_zero]
      by_cases nonzero : a = 0
      · subst nonzero
        rw [units_zero]
        refine .inr ⟨?_, by simp⟩
        cases s <;> simp [signedUnits, Binary.zero]
      · have positive := units_pos (f := f) nonzero (min (f.quantum a) (f.quantum 0))
        have total : signedUnits s (units f a (min (f.quantum a) (f.quantum 0))) ≠ 0 := by
          unfold signedUnits; split <;> omega
        rw [if_neg total]
        exact .inl (round_signedUnits precise finite nonzero (min_le_left ..))

/-! ## Products -/

theorem isZero_mul {x y : Binary f} (zero : x.isZero = true) (finite : y.isFinite = true) :
    (x * y).isZero = true := by
  change (Binary.mul x y).isZero = true
  cases x with
  | nan => cases zero
  | signed s a ha =>
    cases y with
    | nan => cases finite
    | signed t b hb =>
      rw [isZero_signed] at zero
      rw [isFinite_signed] at finite
      have top := f.top_pos
      subst zero
      simp [Binary.mul, finite.ne, top.ne, f.significand_zero, round, nearestRank_zero]

theorem mul_comm (x y : Binary f) : x * y = y * x := by
  change Binary.mul x y = Binary.mul y x
  cases x with
  | nan => cases y <;> rfl
  | signed s a ha =>
    cases y with
    | nan => rfl
    | signed t b hb =>
      simp only [Binary.mul, Or.comm (a := b = f.top), Or.comm (a := b = 0), bne_comm (a := t),
        Nat.mul_comm (f.significand b), Int.add_comm (f.quantum b)]

theorem mul_nan (x : Binary f) : x * nan = nan := by
  cases x <;> rfl

/-! ## Values that vanish -/

theorem Vanishes.mul {x : Binary f} (vanishes : Vanishes x) (y : Binary f) : Vanishes (x * y) := by
  rcases vanishes with rfl | zero
  · exact .inl rfl
  · cases finite : y.isFinite with
    | true => exact .inr (isZero_mul zero finite)
    | false =>
      cases x with
      | nan => cases zero
      | signed s a ha =>
        cases y with
        | nan => exact .inl rfl
        | signed t b hb =>
          have infinite : b = f.top := by
            have notBelow : ¬ b < f.top := by simpa [isFinite] using finite
            omega
          rw [isZero_signed] at zero
          left
          change Binary.mul _ _ = .nan
          simp [Binary.mul, infinite, zero]

theorem Vanishes.div {x y : Binary f} (vanishes : Vanishes x) (divisor : y.isZero = false) :
    Vanishes (x / y) := by
  rcases vanishes with rfl | zero
  · exact .inl rfl
  · cases x with
    | nan => cases zero
    | signed s a ha =>
      cases y with
      | nan => exact .inl rfl
      | signed t b hb =>
        have top := f.top_pos
        have nonzero : b ≠ 0 := by simpa [isZero] using divisor
        rw [isZero_signed] at zero
        subst zero
        right
        change (Binary.div _ _).isZero = true
        simp only [Binary.div, top.ne, nonzero, ↓reduceIte]
        split
        · rfl
        · simp [round, nearestRank_zero, f.significand_zero]

theorem Vanishes.neg {x : Binary f} (vanishes : Vanishes x) : Vanishes (-x) := by
  rcases vanishes with rfl | zero
  · exact .inl rfl
  · cases x with
    | nan => cases zero
    | signed s a ha => exact .inr zero

theorem Vanishes.add (precise : 0 < f.precision) {x y : Binary f} (left : Vanishes x)
    (right : Vanishes y) : Vanishes (x + y) := by
  rcases right with rfl | zero
  · cases x <;> exact .inl rfl
  · rcases left with rfl | zeroLeft
    · exact .inl rfl
    · rcases add_zero_same precise (isFinite_of_isZero zeroLeft) zero with same | ⟨zeroSum, -⟩
      · exact .inr (by rw [same]; exact zeroLeft)
      · exact .inr zeroSum

theorem isZero_add_of_vanishes (precise : 0 < f.precision) {x y : Binary f}
    (nonzero : x.isZero = false) (vanishes : Vanishes y) : (x + y).isZero = false := by
  rcases vanishes with rfl | zero
  · cases x <;> rfl
  · cases x with
    | nan => rfl
    | signed s a ha =>
      have large : a ≠ 0 := by simpa [isZero] using nonzero
      exact isZero_add_of_leans precise ha large (.of_isZero zero s)

theorem lt_abs_of_isZero {x y : Binary f} (zero : x.isZero = true) (number : y.isFinite = true)
    (nonzero : y.isZero = false) : lt x.abs y.abs = true := by
  cases x with
  | nan => cases zero
  | signed s a ha =>
    cases y with
    | nan => cases number
    | signed t b hb =>
      have large : b ≠ 0 := by simpa [isZero] using nonzero
      rw [isZero_signed] at zero
      simp only [lt, abs, compare?, key, zero, Bool.false_eq_true, ↓reduceIte, beq_iff_eq,
        Option.some.injEq, compare_lt_iff_lt]
      omega

theorem lt_abs_of_vanishes {y : Binary f} (vanishes : Vanishes y) (x : Binary f) :
    lt x.abs y.abs = false := by
  rcases vanishes with rfl | zero
  · cases x <;> rfl
  · cases y with
    | nan => cases zero
    | signed t b hb =>
      rw [isZero_signed] at zero
      cases x with
      | nan => rfl
      | signed s a ha =>
        simp only [lt, abs, compare?, key, zero, Bool.false_eq_true, ↓reduceIte,
          beq_eq_false_iff_ne, ne_eq, Option.some.injEq, compare_lt_iff_lt]
        omega

end Binary

/-! ## Products with one -/

namespace Real64

theorem one_eq : Binary.ofInt .binary64 1 = .signed false (1023 * 2 ^ 52) (by decide) := rfl

theorem magnitude_one : Format.binary64.magnitude (1023 * 2 ^ 52) = 1 := by
  have significand : Format.binary64.significand (1023 * 2 ^ 52) = 2 ^ 52 := by decide
  have quantum : Format.binary64.quantum (1023 * 2 ^ 52) = -52 := by decide
  rw [Format.magnitude, significand, quantum]
  norm_num

theorem mul_one_of_isFinite {x : Real64} (finite : x.isFinite = true) :
    x * Binary.ofInt .binary64 1 = x := by
  cases x with
  | nan => cases finite
  | signed s a ha =>
    rw [Binary.isFinite_signed] at finite
    have rank : Binary.nearestRank .binary64
        (Format.binary64.significand a * Format.binary64.significand (1023 * 2 ^ 52)) 1
        (Format.binary64.quantum a + Format.binary64.quantum (1023 * 2 ^ 52)) = a := by
      by_cases nonzero : a = 0
      · rw [nonzero, Format.significand_zero, Nat.zero_mul, Binary.nearestRank_zero]
      · have positive := Format.significand_pos (f := .binary64) nonzero
        refine Binary.nearestRank_magnitude (by decide) (Nat.mul_ne_zero positive.ne' (by decide))
          one_ne_zero finite.le ?_
        rw [Format.magnitude_mul, magnitude_one, mul_one]
    rw [one_eq]
    change Binary.mul _ _ = _
    have notTop : (1023 * 2 ^ 52 : Nat) ≠ Format.binary64.top := by decide
    simp only [Binary.mul, finite.ne, notTop, or_self, ↓reduceIte, Binary.round, rank,
      Bool.bne_false]

end Real64

end RasterEdit
