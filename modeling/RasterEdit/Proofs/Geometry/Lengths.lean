import RasterEdit.Geometry.Reduction
import RasterEdit.Proofs.Binary.Remainder
import RasterEdit.Proofs.Geometry.Canvas
import RasterEdit.Request.Scale

/-!
# Lengths in binary64

Which lengths can be rounded to pixels: the finite ones, and no others. The sides of a raster and
the scales of reductions are expressed exactly, and every canvas of a raster with sides up to
`2 ^ 1000` has a size.
-/

set_option autoImplicit false

namespace RasterEdit

open Binary

namespace Real64

theorem isFinite_ofFraction_iff (n : Int) {d : Int} (divisor : d ≠ 0) :
    (Real64.ofFraction n d).isFinite = true ↔
      (n.natAbs : ℚ) / d.natAbs < Format.binary64.overflow :=
  Binary.isFinite_ofFraction (by decide) (by decide) n divisor

/-- Powers of two down to the least positive value are expressed exactly. -/
theorem magnitude_reciprocal {k : Nat} (inRange : k ≤ 1074) :
    (Real64.ofFraction 1 (1 <<< k : Nat)).magnitude = (2 ^ k)⁻¹ := by
  obtain ⟨rank, exact⟩ := Format.exists_magnitude (f := .binary64) (m := 1) (q := -(k : Int))
    (by decide) (by change (-1074 : Int) ≤ _; omega)
  have unit : Format.binary64.magnitude rank = (2 ^ k)⁻¹ := by
    rw [exact, Nat.cast_one, one_mul, zpow_neg, zpow_natCast]
  have divisor : (1 <<< k : Nat) ≠ 0 := by
    rw [Nat.one_shiftLeft]
    exact (Nat.two_pow_pos k).ne'
  have value : ((1 : Nat) : ℚ) / (1 <<< k : Nat) * 2 ^ (0 : Int) =
      Format.binary64.magnitude rank := by
    rw [unit, Nat.one_shiftLeft]
    simp
  have below : Format.binary64.magnitude rank < Format.binary64.overflow := by
    rw [unit]
    calc ((2 : ℚ) ^ k)⁻¹ ≤ 1 := inv_le_one_of_one_le₀ (one_le_pow₀ one_le_two)
      _ = 2 ^ 0 := (pow_zero 2).symm
      _ < Format.binary64.overflow := two_pow_lt_overflow (by decide)
  rw [Real64.ofFraction, Binary.ofFraction, Int.natAbs_natCast, Int.natAbs_one,
    magnitude_round (by decide) (by decide) divisor value below, unit]

theorem magnitude_half : Real64.half.magnitude = 1 / 2 := by
  have power := magnitude_reciprocal (k := 1) (by decide)
  rw [pow_one, ← one_div] at power
  exact power

theorem number_half : Real64.half.number = 1 / 2 := magnitude_half

theorem isFinite_reciprocal (k : Nat) :
    (Real64.ofFraction 1 (1 <<< k : Nat)).isFinite = true := by
  have divisor : ((1 <<< k : Nat) : Int) ≠ 0 := by
    rw [Nat.one_shiftLeft]
    exact_mod_cast (Nat.two_pow_pos k).ne'
  rw [isFinite_ofFraction_iff 1 divisor, Int.natAbs_natCast, Nat.one_shiftLeft]
  push_cast
  calc (1 : ℚ) / 2 ^ k ≤ 1 := div_le_one_of_le₀ (one_le_pow₀ one_le_two) (by positivity)
    _ = 2 ^ 0 := (pow_zero 2).symm
    _ < Format.binary64.overflow := two_pow_lt_overflow (by decide)

end Real64

/-! ## Rounding to pixels -/

theorem Binary.floor?_isSome {f : Format} (x : Binary f) : x.floor?.isSome = x.isFinite := by
  cases x with
  | nan => rfl
  | signed s rank h =>
    by_cases finite : rank < f.top <;> simp [floor?, parts?, isFinite, finite]

theorem roundHalfAway_succeeds {x : Real64} :
    Result.Succeeds (roundHalfAway x) ↔ x.isFinite = true := by
  have sum : (x.abs + Real64.half).isFinite = x.isFinite := by
    rw [Bool.eq_iff_iff]
    constructor
    · intro finite
      rw [← isFinite_abs]
      exact isFinite_left_of_add finite
    · intro finite
      apply isFinite_add (by decide) (by decide) (by rwa [isFinite_abs]) (by decide)
      rw [magnitude_abs, Real64.magnitude_half]
      exact Real64.magnitude_add_half_lt finite
  rw [← sum, ← floor?_isSome, Option.isSome_iff_exists]
  unfold roundHalfAway
  constructor
  · rintro ⟨n, rounded⟩
    obtain ⟨magnitude, floor, -⟩ := Result.bind_eq_ok.mp rounded
    exact ⟨magnitude, integral_eq_ok.mp floor⟩
  · rintro ⟨magnitude, floor⟩
    rw [integral_eq_ok.mpr floor]
    cases x with
    | nan => exact ⟨magnitude, rfl⟩
    | signed s rank h => cases s <;> exact ⟨_, rfl⟩

theorem realOfFraction_eq_ok {n d : Int} {x : Real64} :
    realOfFraction n d = .ok x ↔
      (Real64.ofFraction n d).isFinite = true ∧ x = Real64.ofFraction n d := by
  simp only [realOfFraction]
  split
  · next finite => simp [finite, eq_comm]
  · next infinite => simp [infinite]

theorem ScaleRequest.scaledSide_succeeds {side : Nat} (small : side < 2 ^ 53) {factor : Real64} :
    Result.Succeeds (scaledSide side factor) ↔
      factor.isFinite = true ∧ side * factor.magnitude < Format.binary64.overflow := by
  have exact : (Real64.ofInt side).isFinite = true := Real64.isFinite_of_small (by omega)
  have length : (Real64.ofInt side).magnitude = side := by
    rw [Real64.magnitude_ofInt (by omega), Int.natAbs_natCast]
  have expressed := realOfInt_eq_ok.mpr ⟨exact, rfl⟩
  rw [scaledSide, expressed, Result.ok_bind, roundHalfAway_succeeds]
  constructor
  · intro product
    have finite := isFinite_right_of_mul product
    rw [isFinite_mul (by decide) (by decide) exact finite, length] at product
    exact ⟨finite, product⟩
  · rintro ⟨finite, below⟩
    rwa [isFinite_mul (by decide) (by decide) exact finite, length]

theorem Reduction.scale_eq_ok {reduction : Reduction} {scale : Real64} :
    reduction.scale = .ok scale ↔
      reduction.halvings ≤ 1023 ∧ scale = Real64.ofFraction 1 (1 <<< reduction.halvings : Nat) := by
  have greatest : Format.binary64.maxExponent = 1023 := rfl
  simp only [Reduction.scale, greatest]
  split
  · next inRange => simp [inRange, eq_comm]
  · next beyond => simp [beyond]

/-- Dividing by the scale of a reduction multiplies by a power of two, which is exact unless it
overflows. -/
theorem Real64.div_reciprocal {x : Real64} (finite : x.isFinite = true) {k : Nat}
    (inRange : k ≤ 1023) :
    ((x / Real64.ofFraction 1 (1 <<< k : Nat)).isFinite = true ↔
        x.magnitude * 2 ^ k < Format.binary64.overflow) ∧
      ((x / Real64.ofFraction 1 (1 <<< k : Nat)).isFinite = true →
        (x / Real64.ofFraction 1 (1 <<< k : Nat)).magnitude = x.magnitude * 2 ^ k) := by
  have scaleFinite := isFinite_reciprocal k
  have scale := magnitude_reciprocal (inRange.trans (by decide))
  have nonzero : (Real64.ofFraction 1 (1 <<< k : Nat)).isZero = false := by
    apply isZero_of_magnitude_pos
    rw [scale]
    positivity
  have quotient : x.magnitude / (Real64.ofFraction 1 (1 <<< k : Nat)).magnitude =
      x.magnitude * 2 ^ k := by
    rw [scale, div_inv_eq_mul]
  have criterion := isFinite_div (by decide) (by decide) finite scaleFinite nonzero
  rw [quotient] at criterion
  refine ⟨criterion, fun below => ?_⟩
  obtain ⟨rank, doubled⟩ : ∃ rank, Format.binary64.magnitude rank = x.magnitude * 2 ^ k := by
    obtain ⟨s, rank, -, rfl⟩ := exists_of_isFinite finite
    exact Format.exists_magnitude_mul_pow _ rank k
  have expressed := quotient.trans doubled.symm
  rw [← doubled]
  apply magnitude_div (by decide) (by decide) finite scaleFinite nonzero expressed
  rw [doubled]
  exact criterion.mp below

/-! ## Canvases -/

namespace Real64

theorem magnitude_ofFixedPoint_le {n : Int} (small : n.natAbs ≤ 2 * 2 ^ FixedPoint.precision) :
    (Binary.ofFixedPoint .binary64 n).magnitude ≤ 2 := by
  rw [← magnitude_two]
  exact Format.magnitude_mono (by decide) (nearestRank_fixedPoint small)

theorem magnitude_sinCos_le {x : Real64} (finite : x.isFinite = true) :
    x.sinCos.1.magnitude ≤ 2 ∧ x.sinCos.2.magnitude ≤ 2 := by
  obtain ⟨m, q, parts, tiny, read⟩ | ⟨sine, cosine, read, sineSmall, cosineSmall, -⟩ :=
    sinCos_cases finite
  · rw [read]
    constructor
    · simp only
      rw [magnitude_of_parts parts]
      rcases tiny with rfl | tiny
      · norm_num
      · calc (m.natAbs : ℚ) * 2 ^ q ≤ 2 ^ (m.natAbs.log2 + 1 + q : Int) :=
              mul_zpow_le_log2 m.natAbs q
          _ ≤ 2 ^ (1 : Int) := zpow_le_zpow_right₀ one_le_two (by omega)
          _ = 2 := zpow_one 2
    · have one : (Binary.ofInt .binary64 1).magnitude = ((1 : Int).natAbs : ℚ) :=
        magnitude_ofInt (by decide)
      rw [one]
      norm_num
  · rw [read]
    exact ⟨magnitude_ofFixedPoint_le sineSmall, magnitude_ofFixedPoint_le cosineSmall⟩

/-! ## Extents -/

section Extents

variable {k : Nat} (inRange : k ≤ 1000)

include inRange

theorem ofInt_le_two_pow {n : Nat} (small : n ≤ 2 ^ k) :
    (Real64.ofInt n).isFinite = true ∧ (Real64.ofInt n).magnitude ≤ 2 ^ (k : Int) := by
  have length : ((n : Int).natAbs : ℚ) ≤ 2 ^ k := by exact_mod_cast small
  constructor
  · rw [isFinite_ofInt_iff]
    exact length.trans_lt (two_pow_lt_overflow (by omega))
  · have least : Format.binary64.leastQuantum = -1074 := rfl
    apply magnitude_round_le (by decide) one_ne_zero (by omega)
    simpa using length

/-- A side of a raster times a sine or a cosine. -/
private theorem projection {n : Nat} {x : Real64} (small : n ≤ 2 ^ k) (finite : x.isFinite = true)
    (short : x.magnitude ≤ 2) : (Real64.ofInt n * x.abs).isFinite = true ∧
      (Real64.ofInt n * x.abs).magnitude ≤ 2 ^ ((k + 1 : Nat) : Int) := by
  obtain ⟨side, length⟩ := ofInt_le_two_pow inRange small
  have bound : (Real64.ofInt n).magnitude * x.abs.magnitude ≤ 2 ^ ((k + 1 : Nat) : Int) := by
    rw [magnitude_abs, Nat.cast_succ, zpow_add₀ two_ne_zero, zpow_one]
    exact mul_le_mul length short x.magnitude_nonneg (by positivity)
  have least : Format.binary64.leastQuantum = -1074 := rfl
  rw [← isFinite_abs] at finite
  refine ⟨?_, magnitude_mul_le (by decide) side finite (by omega) bound⟩
  rw [isFinite_mul (by decide) (by decide) side finite]
  rw [zpow_natCast] at bound
  exact bound.trans_lt (two_pow_lt_overflow (by omega))

theorem extent_succeeds {m n : Nat} {x y : Real64} (first : m ≤ 2 ^ k) (second : n ≤ 2 ^ k)
    (xFinite : x.isFinite = true) (xShort : x.magnitude ≤ 2) (yFinite : y.isFinite = true)
    (yShort : y.magnitude ≤ 2) :
    Result.Succeeds (roundHalfAway (Real64.ofInt m * x.abs + Real64.ofInt n * y.abs)) := by
  obtain ⟨leftFinite, leftSmall⟩ := projection inRange first xFinite xShort
  obtain ⟨rightFinite, rightSmall⟩ := projection inRange second yFinite yShort
  rw [roundHalfAway_succeeds]
  apply isFinite_add (by decide) (by decide) leftFinite rightFinite
  calc _ ≤ (2 : ℚ) ^ ((k + 1 : Nat) : Int) + 2 ^ ((k + 1 : Nat) : Int) := by gcongr
    _ = 2 ^ (k + 2) := by
      rw [zpow_natCast]
      ring
    _ < Format.binary64.overflow := two_pow_lt_overflow (by omega)

end Extents

end Real64

/-- A canvas exists for every finite angle. -/
theorem Rotation.canvasSize_succeeds {k width height : Nat} (inRange : k ≤ 1000)
    (narrow : width ≤ 2 ^ k) (low : height ≤ 2 ^ k) {degrees : Real64}
    (finite : degrees.isFinite = true) :
    Result.Succeeds (canvasSize (.whole width) (.whole height) (.real degrees)) := by
  obtain ⟨reduced, -⟩ := Real64.wrap_near finite (show 0 < 360 by decide) (by decide)
  have angle := isFinite_radians reduced
  obtain ⟨⟨sineFinite, cosineFinite⟩, -⟩ := Real64.sinCos_regular angle
  obtain ⟨sineShort, cosineShort⟩ := Real64.magnitude_sinCos_le angle
  obtain ⟨across, acrossRounded⟩ :=
    Real64.extent_succeeds inRange narrow low cosineFinite cosineShort sineFinite sineShort
  obtain ⟨down, downRounded⟩ :=
    Real64.extent_succeeds inRange low narrow cosineFinite cosineShort sineFinite sineShort
  have widthReal := realOfInt_eq_ok.mpr ⟨(Real64.ofInt_le_two_pow inRange narrow).1, rfl⟩
  have heightReal := realOfInt_eq_ok.mpr ⟨(Real64.ofInt_le_two_pow inRange low).1, rfl⟩
  refine ⟨(across, down), ?_⟩
  simp only [canvasSize, wrapped, Result.ok_bind, Number.toReal, widthReal, heightReal]
  refine Result.bind_eq_ok.mpr ⟨across, acrossRounded, ?_⟩
  exact Result.bind_eq_ok.mpr ⟨down, downRounded, rfl⟩

end RasterEdit
