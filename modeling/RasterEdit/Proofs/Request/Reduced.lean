import RasterEdit.Proofs.Geometry.HalfAway
import RasterEdit.Proofs.Geometry.Region

/-!
# Requests on reduced rasters

A raster that was halved `n` times answers requests like the raster of full size: regions are the
same up to the factor `2 ^ n`, and fractions of the full size are the same sizes. The scale
`1 / 2 ^ n` and its inverse only move a power of two from one factor to another.
-/

set_option autoImplicit false

namespace RasterEdit

open Binary Result

/-- The size that `n` halvings reduce to this one. -/
def Size.enlarged (s : Size) (n : Nat) : Size := ⟨s.width * 2 ^ n, s.height * 2 ^ n⟩

def Region.enlarged (r : Region) (n : Nat) : Region :=
  ⟨r.x * 2 ^ n, r.y * 2 ^ n, r.width * 2 ^ n, r.height * 2 ^ n⟩

/-- A length on the full size that is a whole number of pixels after `n` halvings. -/
def Real64.Aligned (n : Nat) (v : Real64) : Prop :=
  ∃ k : Nat, v.toInt? = some ((k * 2 ^ n : Nat) : Int) ∧ k * 2 ^ n < 2 ^ 50

/-! ## Ends -/

/-- Refused for its geometry. -/
def Result.OutOfShape {α : Type} (x : Result α) : Prop :=
  ∃ cause operation size, x = .error (.geometry cause operation size)

/-- Both end with the same value or failure, or both are refused for their geometry. -/
inductive Result.EndsAlike {α : Type} : Result α → Result α → Prop where
  | same (x : Result α) : EndsAlike x x
  | refused {x y : Result α} (left : OutOfShape x) (right : OutOfShape y) : EndsAlike x y

theorem Result.EndsAlike.map {α β : Type} {x y : Result α} (alike : EndsAlike x y) (f : α → β) :
    EndsAlike (x.map f) (y.map f) := by
  cases alike with
  | same => exact .same (x.map f)
  | refused left right =>
    obtain ⟨cause, operation, size, rfl⟩ := left
    obtain ⟨cause', operation', size', rfl⟩ := right
    exact .refused ⟨cause, operation, size, rfl⟩ ⟨cause', operation', size', rfl⟩

/-! ## Scales and lengths -/

namespace Real64

theorem isNegative_reciprocal (n : Nat) :
    (Real64.ofFraction 1 (1 <<< n : Nat)).isNegative = false := by
  have divisor : ¬ ((1 <<< n : Nat) : Int) < 0 := not_lt.mpr (Int.natCast_nonneg _)
  simp only [Real64.ofFraction, Binary.ofFraction, Binary.round, Binary.isNegative, divisor]
  rfl

theorem isZero_reciprocal {n : Nat} (inRange : n ≤ 1023) :
    (Real64.ofFraction 1 (1 <<< n : Nat)).isZero = false := by
  apply isZero_of_magnitude_pos
  rw [magnitude_reciprocal (inRange.trans (by decide))]
  positivity

/-- A positive length that binary64 expresses exactly. -/
structure IsLength (x : Real64) (n : Nat) : Prop where
  positive : 0 < n
  finite : x.isFinite = true
  sign : x.isNegative = false
  value : x.magnitude = n

theorem IsLength.nonzero {x : Real64} {n : Nat} (length : IsLength x n) : x.isZero = false := by
  apply isZero_of_magnitude_pos
  rw [length.value]
  exact_mod_cast length.positive

theorem isNegative_ofNat (n : Nat) : (Real64.ofInt n).isNegative = false := by
  have nonneg : ¬ (n : Int) < 0 := not_lt.mpr (Int.natCast_nonneg n)
  simp only [Real64.ofInt, Binary.ofInt, Binary.round, Binary.isNegative, nonneg, decide_false]

theorem magnitude_ofNat {n : Nat} (small : n < 2 ^ 53) : (Real64.ofInt n).magnitude = n := by
  rw [magnitude_ofInt (by omega), Int.natAbs_natCast]

theorem isLength_ofNat {n : Nat} (positive : 0 < n) (small : n < 2 ^ 50) :
    IsLength (Real64.ofInt n) n :=
  ⟨positive, isFinite_of_small (by omega), isNegative_ofNat n, magnitude_ofNat (by omega)⟩

end Real64

theorem lt_of_mul_two_pow_lt {k n bound : Nat} (below : k * 2 ^ n < bound) : k < bound :=
  lt_of_le_of_lt (Nat.le_mul_of_pos_right k (Nat.two_pow_pos n)) below

theorem Reduction.scale_of_le {n : Nat} (inRange : n ≤ 1023) :
    (⟨n⟩ : Reduction).scale = .ok (Real64.ofFraction 1 (1 <<< n : Nat)) :=
  Reduction.scale_eq_ok.mpr ⟨inRange, rfl⟩

theorem Reduction.scale_none :
    Reduction.none.scale = .ok (Real64.ofFraction 1 (1 <<< 0 : Nat)) :=
  Reduction.scale_of_le (Nat.zero_le 1023)

/-! ## Crop requests -/

theorem Real64.roundHalfAway_reduced {v : Real64} {k n : Nat} (inRange : n ≤ 1023)
    (whole : v.toInt? = some ((k * 2 ^ n : Nat) : Int)) (small : k * 2 ^ n < 2 ^ 50) :
    roundHalfAway (v * Real64.ofFraction 1 (1 <<< n : Nat)) = .ok (k : Int) := by
  obtain ⟨finite, magnitude_eq, sign⟩ := whole_of_toInt? whole
  have shorter := lt_of_mul_two_pow_lt small
  have product : v.magnitude * (Real64.ofFraction 1 (1 <<< n : Nat)).magnitude = k := by
    rw [magnitude_eq, magnitude_reciprocal (inRange.trans (by decide)), Int.natAbs_natCast]
    push_cast
    field_simp
  obtain ⟨rank, exact⟩ := Format.exists_magnitude (f := .binary64) (m := k) (q := 0)
    (by change _ < 2 ^ 53; omega) (by decide)
  rw [zpow_zero, mul_one] at exact
  have below : (k : ℚ) < Format.binary64.overflow := by
    calc (k : ℚ) < 2 ^ 50 := by exact_mod_cast shorter
      _ < Format.binary64.overflow := two_pow_lt_overflow (by decide)
  have scaleFinite := isFinite_reciprocal n
  have productFinite : (v * Real64.ofFraction 1 (1 <<< n : Nat)).isFinite = true := by
    rwa [isFinite_mul (by decide) (by decide) finite scaleFinite, product]
  have value := magnitude_mul (by decide) (by decide) finite scaleFinite
    (product.trans exact.symm) (by rwa [exact])
  rw [roundHalfAway_whole productFinite (value.trans exact) (by omega)]
  split
  · next negative =>
    have isNegative : v.isNegative = true := by
      rw [isNegative_mul finite scaleFinite] at negative
      rwa [isNegative_reciprocal, Bool.bne_false] at negative
    have nonpos := sign isNegative
    have none : k * 2 ^ n = 0 := by omega
    obtain rfl : k = 0 := (Nat.mul_eq_zero.mp none).resolve_right (Nat.two_pow_pos n).ne'
    rfl
  · rfl

namespace CropRequest

theorem clipped_enlarged (side start extent : Int) {factor : Int} (positive : 0 < factor) :
    clipped (side * factor) (start * factor) (extent * factor) =
      clipped side start extent * factor := by
  have scaled : side * factor < start * factor + extent * factor ↔ side < start + extent := by
    rw [← Int.add_mul]
    exact Int.mul_lt_mul_right positive
  unfold clipped
  simp only [scaled]
  split
  · rw [Int.sub_mul]
  · rfl

theorem coordinates_reduced {r : CropRequest} (pixels : r.unit = .pixels) {n : Nat}
    (inRange : n ≤ 1023) (aligned : ∀ v ∈ [r.x, r.y, r.width, r.height], v.Aligned n)
    (small full : Int × Int) :
    ∃ x y width height : Nat,
      r.coordinates small ⟨n⟩ = .ok (x, y, width, height) ∧
      r.coordinates full .none =
        .ok (x * 2 ^ n, y * 2 ^ n, width * 2 ^ n, height * 2 ^ n) := by
  have scale := Reduction.scale_of_le inRange
  have both {v : Real64} (member : v ∈ [r.x, r.y, r.width, r.height]) :
      ∃ k : Nat, roundHalfAway (v * Real64.ofFraction 1 (1 <<< n : Nat)) = .ok (k : Int) ∧
        roundHalfAway (v * Real64.ofFraction 1 (1 <<< 0 : Nat)) = .ok ((k : Int) * 2 ^ n) := by
    obtain ⟨k, whole, small⟩ := aligned v member
    have reduced := Real64.roundHalfAway_reduced inRange whole small
    have full := Real64.roundHalfAway_reduced (k := k * 2 ^ n) (n := 0) (by decide)
      (by rwa [pow_zero, Nat.mul_one]) (by rwa [pow_zero, Nat.mul_one])
    push_cast at full
    exact ⟨k, reduced, full⟩
  obtain ⟨x, xReduced, xFull⟩ := both (v := r.x) (by simp)
  obtain ⟨y, yReduced, yFull⟩ := both (v := r.y) (by simp)
  obtain ⟨width, widthReduced, widthFull⟩ := both (v := r.width) (by simp)
  obtain ⟨height, heightReduced, heightFull⟩ := both (v := r.height) (by simp)
  refine ⟨x, y, width, height, ?_, ?_⟩
  · simp only [coordinates, pixels, scale, ok_bind, xReduced, yReduced, widthReduced, heightReduced]
    rfl
  · simp only [coordinates, pixels, Reduction.scale_none, ok_bind, xFull, yFull, widthFull,
      heightFull]
    rfl

/-- The region of a request whose coordinates are known. -/
theorem region_of_coordinates {r : CropRequest} (bounded : r.full = false) {size : Int × Int}
    {reduction : Reduction} {x y : Nat} {width height across down : Int}
    (resolved : r.coordinates size reduction = .ok (x, y, width, height))
    (across_eq : clipped size.1 x width = across) (down_eq : clipped size.2 y height = down) :
    r.region size reduction =
      if across < 0 ∨ down < 0 then
        .error (.geometry (.originOutside x y size.1 size.2) "crop" (some (across, down)))
      else .ok ⟨x, y, across.toNat, down.toNat⟩ := by
  simp only [region, bounded, Bool.false_eq_true, ↓reduceIte, resolved, ok_bind, across_eq, down_eq]
  split
  · rfl
  · next inside =>
    exact Region.ofInts_of_nonneg (Int.natCast_nonneg x) (Int.natCast_nonneg y) (by omega)
      (by omega)

/-- The regions on both sizes are the same up to the factor, or both are refused. -/
theorem region_reduced {r : CropRequest} (pixels : r.unit = .pixels) {n : Nat}
    (inRange : n ≤ 1023) (aligned : ∀ v ∈ [r.x, r.y, r.width, r.height], v.Aligned n)
    (size : Size) :
    (∃ region, r.region size.toPair ⟨n⟩ = .ok region ∧
      r.region (size.enlarged n).toPair .none = .ok (region.enlarged n)) ∨
    OutOfShape (r.region size.toPair ⟨n⟩) ∧
      OutOfShape (r.region (size.enlarged n).toPair .none) := by
  cases full : r.full with
  | true =>
    have whole (bounds : Size) (reduction : Reduction) :
        r.region bounds.toPair reduction = .ok ⟨0, 0, bounds.width, bounds.height⟩ := by
      simp only [region, full, ↓reduceIte]
      exact Region.ofInts_of_nonneg (le_refl 0) (le_refl 0) (Int.natCast_nonneg _)
        (Int.natCast_nonneg _)
    refine .inl ⟨_, whole size ⟨n⟩, (whole (size.enlarged n) .none).trans ?_⟩
    simp only [Region.enlarged, Size.enlarged, Nat.zero_mul]
  | false =>
    obtain ⟨x, y, width, height, reduced, whole⟩ :=
      coordinates_reduced pixels inRange aligned size.toPair (size.enlarged n).toPair
    have power : (0 : Int) < 2 ^ n := by positivity
    have across : clipped (size.enlarged n).toPair.1 ((x * 2 ^ n : Nat) : Int)
        (width * 2 ^ n) = clipped size.toPair.1 x width * 2 ^ n := by
      simpa [Size.toPair, Size.enlarged] using clipped_enlarged size.width x width power
    have down : clipped (size.enlarged n).toPair.2 ((y * 2 ^ n : Nat) : Int)
        (height * 2 ^ n) = clipped size.toPair.2 y height * 2 ^ n := by
      simpa [Size.toPair, Size.enlarged] using clipped_enlarged size.height y height power
    have regionReduced := region_of_coordinates full reduced rfl rfl
    have regionFull := region_of_coordinates (x := x * 2 ^ n) (y := y * 2 ^ n) full
      (by rw [whole]; push_cast; rfl) across down
    have negative (a : Int) : a * 2 ^ n < 0 ↔ a < 0 := by
      simpa using Int.mul_lt_mul_right (b := a) (c := 0) power
    simp only [negative] at regionFull
    by_cases outside : clipped size.toPair.1 x width < 0 ∨ clipped size.toPair.2 y height < 0
    · rw [if_pos outside] at regionReduced regionFull
      exact .inr ⟨⟨_, _, _, regionReduced⟩, ⟨_, _, _, regionFull⟩⟩
    · rw [if_neg outside] at regionReduced regionFull
      refine .inl ⟨_, regionReduced, regionFull.trans ?_⟩
      obtain ⟨acrossInside, downInside⟩ := not_or.mp outside
      have extent {a : Int} (inside : ¬ a < 0) : (a * 2 ^ n).toNat = a.toNat * 2 ^ n := by
        lift a to Nat using not_lt.mp inside
        exact_mod_cast Int.toNat_natCast (a * 2 ^ n)
      rw [extent acrossInside, extent downInside]
      rfl

end CropRequest

/-! ## Scale requests -/

namespace Real64

section Lengths

variable {x y : Real64} {side n : Nat} (reduced : IsLength x side)
  (full : IsLength y (side * 2 ^ n)) (inRange : n ≤ 1023)

include reduced full inRange

/-- Dividing moves the power of two to the fraction; where that overflows, so does the product on
the full size. -/
theorem mul_div_reciprocal_of_finite {p : Real64} (finite : p.isFinite = true) :
    x * (p / Real64.ofFraction 1 (1 <<< n : Nat)) =
      y * (p / Real64.ofFraction 1 (1 <<< 0 : Nat)) := by
  obtain ⟨quotientFinite, quotientValue⟩ := div_reciprocal finite inRange
  obtain ⟨unitFinite, unitValue⟩ := div_reciprocal finite (Nat.zero_le 1023)
  rw [pow_zero, mul_one] at unitFinite unitValue
  have below := magnitude_lt_overflow (by decide) (by decide) finite
  have unitQuotient := unitFinite.mpr below
  have scaleNonzero := isZero_reciprocal inRange
  have sign : (x.isNegative != (p / Real64.ofFraction 1 (1 <<< n : Nat)).isNegative) =
      (y.isNegative != (p / Real64.ofFraction 1 (1 <<< 0 : Nat)).isNegative) := by
    rw [isNegative_div finite (isFinite_reciprocal n) scaleNonzero,
      isNegative_div finite (isFinite_reciprocal 0) (isZero_reciprocal (Nat.zero_le 1023)),
      reduced.sign, full.sign, isNegative_reciprocal, isNegative_reciprocal]
  by_cases reached : p.magnitude * 2 ^ n < Format.binary64.overflow
  · have quotient := quotientFinite.mpr reached
    apply mul_congr (by decide) reduced.finite quotient full.finite unitQuotient sign
    rw [reduced.value, full.value, quotientValue quotient, unitValue unitQuotient]
    push_cast
    ring
  · have infinite : (p / Real64.ofFraction 1 (1 <<< n : Nat)).isFinite = false := by
      rw [← Bool.not_eq_true, quotientFinite]
      exact reached
    have overflows : (y * (p / Real64.ofFraction 1 (1 <<< 0 : Nat))).isFinite = false := by
      rw [← Bool.not_eq_true, isFinite_mul (by decide) (by decide) full.finite unitQuotient,
        not_lt, full.value, unitValue unitQuotient]
      have one : (1 : ℚ) ≤ side := by exact_mod_cast reduced.positive
      have nonneg := p.magnitude_nonneg
      calc Format.binary64.overflow ≤ 1 * (p.magnitude * 2 ^ n) := by
            rw [one_mul]
            exact not_lt.mp reached
        _ ≤ side * (p.magnitude * 2 ^ n) := by gcongr
        _ = (side * 2 ^ n : Nat) * p.magnitude := by
            push_cast
            ring
    exact mul_eq_of_infinite reduced.finite reduced.nonzero
      (isNaN_div finite (isFinite_reciprocal n) scaleNonzero) infinite full.finite unitQuotient
      overflows sign

/-- The fraction of a side is the same number on both sizes, also where it is not finite. -/
theorem mul_div_reciprocal (p : Real64) :
    x * (p / Real64.ofFraction 1 (1 <<< n : Nat)) =
      y * (p / Real64.ofFraction 1 (1 <<< 0 : Nat)) := by
  cases finite : p.isFinite with
  | true => exact mul_div_reciprocal_of_finite reduced full inRange finite
  | false =>
    cases p with
    | nan => exact (mul_nan x).trans (mul_nan y).symm
    | signed s rank h =>
      rw [eq_infinity rfl finite, infinity_div (isFinite_reciprocal n),
        infinity_div (isFinite_reciprocal 0), mul_infinity reduced.finite reduced.nonzero,
        mul_infinity full.finite full.nonzero, reduced.sign, full.sign, isNegative_reciprocal,
        isNegative_reciprocal]

end Lengths

end Real64

namespace ScaleRequest

theorem scaledSide_reduced {side n : Nat} (positive : 0 < side) (small : side * 2 ^ n < 2 ^ 50)
    (inRange : n ≤ 1023) (p : Real64) :
    scaledSide side (p / Real64.ofFraction 1 (1 <<< n : Nat)) =
      scaledSide (side * 2 ^ n : Nat) (p / Real64.ofFraction 1 (1 <<< 0 : Nat)) := by
  have reduced := Real64.isLength_ofNat positive (lt_of_mul_two_pow_lt small)
  have full := Real64.isLength_ofNat (Nat.mul_pos positive (Nat.two_pow_pos n)) small
  rw [scaledSide, scaledSide, realOfInt_eq_ok.mpr ⟨reduced.finite, rfl⟩,
    realOfInt_eq_ok.mpr ⟨full.finite, rfl⟩, ok_bind, ok_bind,
    Real64.mul_div_reciprocal reduced full inRange p]

theorem uncheckedTarget_reduced {r : ScaleRequest} (percent : r.mode = .percent) {n : Nat}
    (inRange : n ≤ 1023) {size : Size} (width_pos : 0 < size.width) (height_pos : 0 < size.height)
    (narrow : size.width * 2 ^ n < 2 ^ 50) (low : size.height * 2 ^ n < 2 ^ 50) :
    r.uncheckedTarget size.toPair ⟨n⟩ =
      r.uncheckedTarget (size.enlarged n).toPair .none := by
  have scale := Reduction.scale_of_le inRange
  have across (p : Real64) := scaledSide_reduced width_pos narrow inRange p
  have down (p : Real64) := scaledSide_reduced height_pos low inRange p
  simp only [uncheckedTarget, percent, scale, Reduction.scale_none, ok_bind, Size.toPair,
    Size.enlarged, across, down]

/-- The targets on both sizes are the same, or both requests fail alike. -/
theorem target_reduced {r : ScaleRequest} (percent : r.mode = .percent) {n : Nat}
    (inRange : n ≤ 1023) {size : Size} (narrow : size.width * 2 ^ n < 2 ^ 50)
    (low : size.height * 2 ^ n < 2 ^ 50) :
    EndsAlike (r.target size.toPair ⟨n⟩) (r.target (size.enlarged n).toPair .none) := by
  have power : 0 < 2 ^ n := Nat.two_pow_pos n
  have proportional : r.mode ≠ .fill := by
    rw [percent]
    exact nofun
  have empty {side : Nat} : ((side * 2 ^ n : Nat) : Int) = 0 ↔ (side : Int) = 0 := by
    rw [Int.natCast_eq_zero, Int.natCast_eq_zero, Nat.mul_eq_zero, or_iff_left power.ne']
  have emptyFull : (size.enlarged n).toPair.1 = 0 ∨ (size.enlarged n).toPair.2 = 0 ↔
      size.toPair.1 = 0 ∨ size.toPair.2 = 0 := or_congr empty empty
  simp only [target, proportional, ne_eq, not_false_eq_true, true_and, emptyFull]
  by_cases flat : size.toPair.1 = 0 ∨ size.toPair.2 = 0
  · rw [if_pos flat, if_pos flat]
    exact .refused ⟨_, _, _, rfl⟩ ⟨_, _, _, rfl⟩
  · obtain ⟨wide, high⟩ := not_or.mp flat
    have width_pos : 0 < size.width := by
      change ¬ (size.width : Int) = 0 at wide
      omega
    have height_pos : 0 < size.height := by
      change ¬ (size.height : Int) = 0 at high
      omega
    rw [if_neg flat, if_neg flat,
      uncheckedTarget_reduced percent inRange width_pos height_pos narrow low]
    cases r.uncheckedTarget (size.enlarged n).toPair .none with
    | error fault => exact .same _
    | ok target =>
      by_cases nonpositive : target.1 ≤ 0 ∨ target.2 ≤ 0
      · simp only [ok_bind, nonpositive, ↓reduceIte]
        exact .refused ⟨_, _, _, rfl⟩ ⟨_, _, _, rfl⟩
      · simp only [ok_bind, nonpositive, ↓reduceIte]
        exact .same _

end ScaleRequest

/-! ## Requests one after the other -/

/-- The size after a crop and a scale of what it leaves. -/
def CropRequest.sizeThenScaled (crop : CropRequest) (scale : ScaleRequest) (size : Int × Int)
    (reduction : Reduction) : Result Size := do
  let region ← crop.outputSize size reduction
  scale.outputSize region.toPair reduction

private theorem sides_of_isWithin {region : Region} {size : Size}
    (within : region.isWithin size = true) {n : Nat} (narrow : size.width * 2 ^ n < 2 ^ 50)
    (low : size.height * 2 ^ n < 2 ^ 50) :
    region.width * 2 ^ n < 2 ^ 50 ∧ region.height * 2 ^ n < 2 ^ 50 := by
  obtain ⟨across, down⟩ := Region.isWithin_iff.mp within
  have width_le := Nat.mul_le_mul_right (2 ^ n) (by omega : region.width ≤ size.width)
  have height_le := Nat.mul_le_mul_right (2 ^ n) (by omega : region.height ≤ size.height)
  exact ⟨by omega, by omega⟩

/-- A raster halved `n` times and the one of full size resolve a request alike: the regions of a
crop in pixels are the same up to the factor `2 ^ n`, or both are refused; a scale by a fraction has
the same target, or both fail alike; and so has a crop followed by a scale. -/
theorem reduced_requests_agree {n : Nat} (inRange : n ≤ 1023) {size : Size}
    (narrow : size.width * 2 ^ n < 2 ^ 50) (low : size.height * 2 ^ n < 2 ^ 50)
    {crop : CropRequest} (pixels : crop.unit = .pixels)
    (aligned : ∀ v ∈ [crop.x, crop.y, crop.width, crop.height], v.Aligned n)
    {scale : ScaleRequest} (percent : scale.mode = .percent) :
    ((∃ region, crop.region size.toPair ⟨n⟩ = .ok region ∧
        crop.region (size.enlarged n).toPair .none = .ok (region.enlarged n)) ∨
      OutOfShape (crop.region size.toPair ⟨n⟩) ∧
        OutOfShape (crop.region (size.enlarged n).toPair .none)) ∧
    EndsAlike (scale.target size.toPair ⟨n⟩) (scale.target (size.enlarged n).toPair .none) ∧
    EndsAlike (crop.sizeThenScaled scale size.toPair ⟨n⟩)
      (crop.sizeThenScaled scale (size.enlarged n).toPair .none) := by
  have regions := crop.region_reduced pixels inRange aligned size
  refine ⟨regions, scale.target_reduced percent inRange narrow low, ?_⟩
  unfold CropRequest.sizeThenScaled CropRequest.outputSize
  rcases regions with ⟨region, reduced, full⟩ | ⟨reduced, full⟩
  · have within := CropRequest.region_isWithin reduced
    obtain ⟨width_lt, height_lt⟩ := sides_of_isWithin within narrow low
    rw [reduced, full]
    have targets : EndsAlike (scale.target region.size.toPair ⟨n⟩)
        (scale.target (region.size.enlarged n).toPair .none) :=
      scale.target_reduced percent inRange width_lt height_lt
    exact targets.map fun target => (⟨target.1.toNat, target.2.toNat⟩ : Size)
  · obtain ⟨cause, operation, given, reduced⟩ := reduced
    obtain ⟨cause', operation', given', full⟩ := full
    rw [reduced, full]
    exact .refused ⟨_, _, _, rfl⟩ ⟨_, _, _, rfl⟩

theorem reduced_requests_agree_once_halved :
    let crop : CropRequest := ⟨.pixels, 2, 0, 8, 4, false⟩
    let scale : ScaleRequest := ⟨.percent, none, none, some (.real Real64.half)⟩
    (crop.sizeThenScaled scale (3, 2) ⟨1⟩).toOption = some ⟨2, 2⟩ ∧
      EndsAlike (crop.sizeThenScaled scale (3, 2) ⟨1⟩) (crop.sizeThenScaled scale (6, 4) .none) := by
  intro crop scale
  have aligned : ∀ v ∈ [crop.x, crop.y, crop.width, crop.height], v.Aligned 1 := by
    intro v member
    simp only [crop, List.mem_cons, List.not_mem_nil, or_false] at member
    rcases member with rfl | rfl | rfl | rfl
    · exact ⟨1, by decide +kernel, by decide⟩
    · exact ⟨0, by decide +kernel, by decide⟩
    · exact ⟨4, by decide +kernel, by decide⟩
    · exact ⟨2, by decide +kernel, by decide⟩
  have narrow : (⟨3, 2⟩ : Size).width * 2 ^ 1 < 2 ^ 50 := by decide
  have low : (⟨3, 2⟩ : Size).height * 2 ^ 1 < 2 ^ 50 := by decide
  have pixels : crop.unit = .pixels := rfl
  have percent : scale.mode = .percent := rfl
  have agree := reduced_requests_agree (by decide) narrow low pixels aligned percent
  exact ⟨by decide +kernel, agree.2.2⟩

end RasterEdit
