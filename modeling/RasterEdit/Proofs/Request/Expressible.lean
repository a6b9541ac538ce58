import RasterEdit.Proofs.Edit.Checks
import RasterEdit.Proofs.Request.Accepted

/-!
# Requests that binary64 can express

Whether a request can be resolved on a raster depends on the numbers on the way: the coordinates of
a crop and the sides of a scaled raster have to be finite. Requests for which they are resolve or
fail for their geometry; the others fail with a conversion that nobody announced.
-/

set_option autoImplicit false

namespace RasterEdit

open Binary Result

/-! ## Announced failures -/

/-- The failures that raster operations announce: their own, and a setting that is missing. -/
inductive Failure.Announced : Failure → Prop where
  | raster {fault : Failure} (own : fault.isRasterError = true) : Announced fault
  | unconfigured {keyName envName : String} : Announced (.unconfigured keyName envName)

open Failure

theorem Failure.Stray.not_announced {fault : Failure} (stray : fault.Stray) :
    ¬ fault.Announced := by
  intro announced
  cases stray with
  | conversion => cases announced with | raster own => cases own
  | missingTarget => cases announced with | raster own => cases own

theorem raises_announced_iff {α : Type} {x : Result α} (stray : Raises Stray x) :
    Raises Announced x ↔ Succeeds x := by
  cases x with
  | error fault =>
    refine iff_of_false (fun raises => ?_) (not_succeeds_error fault)
    exact (stray.of_error fault rfl).not_announced (raises.of_error fault rfl)
  | ok a => exact iff_of_true (raises_ok a) (succeeds_ok a)

theorem raises_announced_bind {α β : Type} {x : Result α} {f : α → Result β}
    (first : Raises Stray x) (second : ∀ a, x = .ok a → Raises Announced (f a)) :
    Raises Announced (x >>= f) ↔ Succeeds x := by
  rw [← raises_announced_iff first]
  cases x with
  | error fault => exact raises_error_iff.trans raises_error_iff.symm
  | ok a => exact iff_of_true (second a rfl) (raises_ok a)

/-! ## Crop requests -/

namespace CropRequest

/-- Coordinates in pixels are finite, and binary64 has the scale that they are multiplied by. -/
def Expressible (r : CropRequest) (reduction : Reduction) : Prop :=
  r.full = true ∨ r.unit = .percent ∨
    reduction.halvings ≤ 1023 ∧ ∀ v ∈ [r.x, r.y, r.width, r.height], v.isFinite = true

private theorem quadruple_succeeds {a b c d : Result Int} :
    Succeeds (do return (← a, ← b, ← c, ← d) : Result (Int × Int × Int × Int)) ↔
      Succeeds a ∧ Succeeds b ∧ Succeeds c ∧ Succeeds d := by
  refine succeeds_bind_and fun x => succeeds_bind_and fun y => succeeds_bind_and fun w => ?_
  exact (succeeds_bind_and fun h => iff_of_true (succeeds_ok (x, y, w, h)) trivial).trans
    (and_iff_left trivial)

private theorem quadruple_eq_ok {a b c d : Result Int} {x y w h : Int}
    (resolved : (do return (← a, ← b, ← c, ← d) : Result (Int × Int × Int × Int)) =
      .ok (x, y, w, h)) : a = .ok x ∧ b = .ok y ∧ c = .ok w ∧ d = .ok h := by
  obtain ⟨x', first, resolved⟩ := bind_eq_ok.mp resolved
  obtain ⟨y', second, resolved⟩ := bind_eq_ok.mp resolved
  obtain ⟨w', third, resolved⟩ := bind_eq_ok.mp resolved
  obtain ⟨h', fourth, resolved⟩ := bind_eq_ok.mp resolved
  cases resolved
  exact ⟨first, second, third, fourth⟩

private theorem along_succeeds {v : Real64} {side : Nat} (small : side ≤ 2 ^ 20)
    (fraction : v.isFinite = true ∧ v.magnitude ≤ 1) :
    Succeeds (realOfInt side >>= fun x => roundHalfAway (v * x)) := by
  have exact : (Real64.ofInt side).isFinite = true := Real64.isFinite_of_small (by omega)
  rw [realOfInt_eq_ok.mpr ⟨exact, rfl⟩, ok_bind, roundHalfAway_succeeds,
    isFinite_mul (by decide) (by decide) fraction.1 exact, Real64.magnitude_ofInt (by omega)]
  have sideRat : ((side : Int).natAbs : ℚ) ≤ 2 ^ 20 := by exact_mod_cast small
  calc v.magnitude * ((side : Int).natAbs : ℚ) ≤ 1 * 2 ^ 20 := by
        have := v.magnitude_nonneg
        gcongr
        exact fraction.2
    _ = 2 ^ 20 := one_mul _
    _ < Format.binary64.overflow := Real64.two_pow_lt_overflow (by decide)

private theorem reduced_succeeds {v : Real64} {k : Nat} (inRange : k ≤ 1023) :
    Succeeds (roundHalfAway (v * Real64.ofFraction 1 (1 <<< k : Nat))) ↔ v.isFinite = true := by
  rw [roundHalfAway_succeeds]
  constructor
  · exact isFinite_left_of_mul
  · intro finite
    have scale : ((2 : ℚ) ^ k)⁻¹ ≤ 1 := inv_le_one_of_one_le₀ (one_le_pow₀ one_le_two)
    rw [isFinite_mul (by decide) (by decide) finite (Real64.isFinite_reciprocal k),
      Real64.magnitude_reciprocal (inRange.trans (by decide))]
    calc v.magnitude * (2 ^ k)⁻¹ ≤ v.magnitude * 1 := by
          have := v.magnitude_nonneg
          gcongr
      _ = v.magnitude := mul_one _
      _ < Format.binary64.overflow := magnitude_lt_overflow (by decide) (by decide) finite

theorem Accepted.coordinates_succeeds {r : CropRequest} (accepted : r.Accepted) {size : Size}
    (narrow : size.width ≤ 2 ^ 20) (low : size.height ≤ 2 ^ 20) (reduction : Reduction) :
    Succeeds (r.coordinates size.toPair reduction) ↔
      r.unit = .percent ∨
        reduction.halvings ≤ 1023 ∧ ∀ v ∈ [r.x, r.y, r.width, r.height], v.isFinite = true := by
  unfold coordinates
  cases unit : r.unit with
  | percent =>
    have fraction := accepted.le_one unit
    refine iff_of_true (quadruple_succeeds.mpr ⟨?_, ?_, ?_, ?_⟩) (.inl rfl)
    · exact along_succeeds narrow (fraction r.x (by simp))
    · exact along_succeeds low (fraction r.y (by simp))
    · exact along_succeeds narrow (fraction r.width (by simp))
    · exact along_succeeds low (fraction r.height (by simp))
  | pixels =>
    simp only [reduceCtorEq, false_or, List.forall_mem_cons, List.not_mem_nil, false_imp_iff,
      implies_true, and_true]
    rw [succeeds_bind]
    constructor
    · rintro ⟨scale, scaled, resolved⟩
      obtain ⟨inRange, rfl⟩ := Reduction.scale_eq_ok.mp scaled
      obtain ⟨x, y, w, h⟩ := quadruple_succeeds.mp resolved
      exact ⟨inRange, (reduced_succeeds inRange).mp x, (reduced_succeeds inRange).mp y,
        (reduced_succeeds inRange).mp w, (reduced_succeeds inRange).mp h⟩
    · rintro ⟨inRange, x, y, w, h⟩
      refine ⟨_, Reduction.scale_eq_ok.mpr ⟨inRange, rfl⟩, quadruple_succeeds.mpr ?_⟩
      exact ⟨(reduced_succeeds inRange).mpr x, (reduced_succeeds inRange).mpr y,
        (reduced_succeeds inRange).mpr w, (reduced_succeeds inRange).mpr h⟩

/-- The origin of an accepted request is never left of or above the raster, and its extents are not
negative. -/
theorem Accepted.coordinates_nonneg {r : CropRequest} (accepted : r.Accepted) {size : Size}
    {reduction : Reduction} {x y width height : Int}
    (resolved : r.coordinates size.toPair reduction = .ok (x, y, width, height)) :
    0 ≤ x ∧ 0 ≤ y ∧ 0 ≤ width ∧ 0 ≤ height := by
  have rounded {v : Real64} {n : Int} (leans : Leans false v) (ok : roundHalfAway v = .ok n) :
      0 ≤ n := by
    obtain ⟨k, rfl, -⟩ := roundHalfAway_eq_ok leans ok
    omega
  have xLeans := (Real64.of_zero_le accepted.x_nonneg).1
  have yLeans := (Real64.of_zero_le accepted.y_nonneg).1
  have widthLeans := (Real64.of_zero_le accepted.width_nonneg).1
  have heightLeans := (Real64.of_zero_le accepted.height_nonneg).1
  unfold coordinates at resolved
  cases unit : r.unit with
  | percent =>
    have along {v : Real64} {side : Nat} {n : Int} (leans : Leans false v)
        (ok : (realOfInt side >>= fun x => roundHalfAway (v * x)) = .ok n) : 0 ≤ n := by
      obtain ⟨x, expressed, ok⟩ := bind_eq_ok.mp ok
      obtain ⟨-, rfl⟩ := realOfInt_eq_ok.mp expressed
      have natural : Leans false (Real64.ofInt side) := .inr (by simp)
      exact rounded (leans.mul natural) ok
    rw [unit] at resolved
    obtain ⟨left, top, across, down⟩ := quadruple_eq_ok resolved
    exact ⟨along xLeans left, along yLeans top, along widthLeans across, along heightLeans down⟩
  | pixels =>
    rw [unit] at resolved
    obtain ⟨scale, scaled, resolved⟩ := bind_eq_ok.mp resolved
    obtain ⟨-, rfl⟩ := Reduction.scale_eq_ok.mp scaled
    obtain ⟨left, top, across, down⟩ := quadruple_eq_ok resolved
    have positive : Leans false (Real64.ofFraction 1 (1 <<< reduction.halvings : Nat)) :=
      .inr (by simpa using Int.natCast_nonneg (1 <<< reduction.halvings))
    exact ⟨rounded (xLeans.mul positive) left, rounded (yLeans.mul positive) top,
      rounded (widthLeans.mul positive) across, rounded (heightLeans.mul positive) down⟩

/-- An accepted crop resolves, or fails for its geometry, exactly if it can be expressed. -/
theorem Accepted.region_raises {r : CropRequest} (accepted : r.Accepted) {size : Size}
    (narrow : size.width ≤ 2 ^ 20) (low : size.height ≤ 2 ^ 20) (reduction : Reduction) :
    Raises Announced (r.region size.toPair reduction) ↔ r.Expressible reduction := by
  unfold region Expressible
  cases full : r.full with
  | true =>
    have whole := Region.ofInts_of_nonneg (le_refl 0) (le_refl 0) (Int.natCast_nonneg size.width)
      (Int.natCast_nonneg size.height)
    rw [if_pos rfl, Size.toPair, whole]
    exact iff_of_true (raises_ok _) (.inl rfl)
  | false =>
    simp only [Bool.false_eq_true, ↓reduceIte, false_or]
    rw [← accepted.coordinates_succeeds narrow low reduction]
    refine raises_announced_bind (r.coordinates_raises ..) ?_
    rintro ⟨x, y, width, height⟩ resolved
    obtain ⟨hx, hy, -, -⟩ := accepted.coordinates_nonneg resolved
    refine .ite (fun _ => raises_throw (.raster rfl) _) fun inside => ?_
    rw [Region.ofInts_of_nonneg hx hy (by omega) (by omega)]
    exact raises_ok _

end CropRequest

/-! ## Scale requests -/

namespace ScaleRequest

/-- Every number on the way to the target stays below the overflow: a side that follows the other
one, or the sides times the factor of a box or of a fraction of the full size. -/
def Expressible (r : ScaleRequest) (source : Size) (reduction : Reduction) : Prop :=
  source.isEmpty = true ∨
    match r.mode, r.width, r.height, r.percent with
    | .fitWidth, some (.whole width), _, _ =>
      (source.height * width / source.width : ℚ) < Format.binary64.overflow
    | .fitHeight, _, some (.whole height), _ =>
      (source.width * height / source.height : ℚ) < Format.binary64.overflow
    | .fitInside, some (.whole width), some (.whole height), _ =>
      (width / source.width : ℚ) < Format.binary64.overflow ∧
        (height / source.height : ℚ) < Format.binary64.overflow ∧
        (max source.width source.height : Nat) * (smaller (Real64.ofFraction width source.width)
          (Real64.ofFraction height source.height)).magnitude < Format.binary64.overflow
    | .percent, _, _, some (.real factor) =>
      reduction.halvings ≤ 1023 ∧
        (max source.width source.height : Nat) * (factor.magnitude * 2 ^ reduction.halvings) <
          Format.binary64.overflow
    | _, _, _, _ => True

private theorem fraction_isFinite (n : Nat) {d : Nat} (positive : 0 < d) :
    (Real64.ofFraction n d).isFinite = true ↔ (n / d : ℚ) < Format.binary64.overflow := by
  have divisor : (d : Int) ≠ 0 := by omega
  rw [Real64.isFinite_ofFraction_iff n divisor, Int.natAbs_natCast, Int.natAbs_natCast]

private theorem fraction_succeeds {β : Type} {n d : Int} {f : Real64 → Result β} :
    Succeeds (realOfFraction n d >>= f) ↔
      (Real64.ofFraction n d).isFinite = true ∧ Succeeds (f (Real64.ofFraction n d)) := by
  rw [succeeds_bind]
  constructor
  · rintro ⟨x, expressed, rest⟩
    obtain ⟨finite, rfl⟩ := realOfFraction_eq_ok.mp expressed
    exact ⟨finite, rest⟩
  · rintro ⟨finite, rest⟩
    exact ⟨_, realOfFraction_eq_ok.mpr ⟨finite, rfl⟩, rest⟩

private theorem following_succeeds {β : Type} {n d : Int} {f : Int → Result β}
    (rest : ∀ side, Succeeds (f side)) :
    Succeeds (realOfFraction n d >>= fun x => roundHalfAway x >>= f) ↔
      (Real64.ofFraction n d).isFinite = true := by
  have rounded (x : Real64) : Succeeds (roundHalfAway x >>= f) ↔ x.isFinite = true := by
    rw [succeeds_bind_and (p := True) fun side => iff_of_true (rest side) trivial,
      roundHalfAway_succeeds, and_true]
  rw [fraction_succeeds, rounded, and_self]

private theorem scaledSides_succeed {width height : Nat} (narrow : width < 2 ^ 53)
    (low : height < 2 ^ 53) {factor : Real64} :
    Succeeds (do return (← scaledSide width factor, ← scaledSide height factor)) ↔
      factor.isFinite = true ∧
        (max width height : Nat) * factor.magnitude < Format.binary64.overflow := by
  have nonneg := factor.magnitude_nonneg
  have both : Succeeds (do return (← scaledSide width factor, ← scaledSide height factor)) ↔
      Succeeds (scaledSide width factor) ∧ Succeeds (scaledSide height factor) :=
    succeeds_bind_and fun w =>
      (succeeds_bind_and fun h => iff_of_true (succeeds_ok (w, h)) trivial).trans
        (and_iff_left trivial)
  rw [both, scaledSide_succeeds narrow, scaledSide_succeeds low, ← and_and_left]
  refine and_congr_right fun finite => ?_
  rcases Nat.le_total width height with le | le
  · rw [max_eq_right le]
    have leRat : (width : ℚ) ≤ height := by exact_mod_cast le
    refine ⟨And.right, fun below => ⟨lt_of_le_of_lt ?_ below, below⟩⟩
    gcongr
  · rw [max_eq_left le]
    have leRat : (height : ℚ) ≤ width := by exact_mod_cast le
    refine ⟨And.left, fun below => ⟨below, lt_of_le_of_lt ?_ below⟩⟩
    gcongr

private theorem isFinite_smaller {a b : Real64} (left : a.isFinite = true)
    (right : b.isFinite = true) : (smaller a b).isFinite = true := by
  unfold smaller
  split
  · exact right
  · exact left

theorem Accepted.uncheckedTarget_succeeds {r : ScaleRequest} (accepted : r.Accepted) {source : Size}
    (narrow : source.width < 2 ^ 53) (low : source.height < 2 ^ 53)
    (nonempty : source.isEmpty = false) (reduction : Reduction) :
    Succeeds (r.uncheckedTarget source.toPair reduction) ↔ r.Expressible source reduction := by
  obtain ⟨acrossPos, downPos⟩ : 0 < source.width ∧ 0 < source.height := by
    simp only [Size.isEmpty, Bool.or_eq_false_iff, beq_eq_false_iff_ne] at nonempty
    omega
  simp only [Expressible, nonempty, Bool.false_eq_true, false_or]
  cases accepted with
  | @fitWidth width height percent positive =>
    have side := fraction_isFinite (source.height * width) acrossPos
    push_cast at side
    dsimp only
    rw [Int.cast_natCast, ← side]
    exact following_succeeds fun height => succeeds_ok ((width : Int), height)
  | @fitHeight height width percent positive =>
    have side := fraction_isFinite (source.width * height) downPos
    push_cast at side
    dsimp only
    rw [Int.cast_natCast, ← side]
    exact following_succeeds fun width => succeeds_ok (width, (height : Int))
  | @fill width height percent acrossPositive downPositive =>
    exact iff_of_true (succeeds_ok ((width : Int), (height : Int))) trivial
  | @fitInside width height percent acrossPositive downPositive =>
    dsimp only
    rw [Int.cast_natCast, Int.cast_natCast, ← fraction_isFinite width acrossPos,
      ← fraction_isFinite height downPos]
    refine fraction_succeeds.trans (and_congr_right fun across => ?_)
    refine fraction_succeeds.trans (and_congr_right fun down => ?_)
    exact (scaledSides_succeed narrow low).trans (and_iff_right (isFinite_smaller across down))
  | @percent width height factor finite =>
    change Succeeds (reduction.scale >>= fun scale => do
      return (← scaledSide source.width (factor / scale),
        ← scaledSide source.height (factor / scale))) ↔ _
    dsimp only
    rw [succeeds_bind]
    constructor
    · rintro ⟨scale, scaled, resolved⟩
      obtain ⟨inRange, rfl⟩ := Reduction.scale_eq_ok.mp scaled
      obtain ⟨quotient, below⟩ := (scaledSides_succeed narrow low).mp resolved
      rw [(Real64.div_reciprocal finite inRange).2 quotient] at below
      exact ⟨inRange, below⟩
    · rintro ⟨inRange, below⟩
      obtain ⟨criterion, exact⟩ := Real64.div_reciprocal finite inRange
      have quotient := criterion.mpr <|
        calc factor.magnitude * 2 ^ reduction.halvings
            = 1 * (factor.magnitude * 2 ^ reduction.halvings) := (one_mul _).symm
          _ ≤ (max source.width source.height : Nat) *
              (factor.magnitude * 2 ^ reduction.halvings) := by
            have nonneg := factor.magnitude_nonneg
            have longest : (1 : ℚ) ≤ (max source.width source.height : Nat) := by
              exact_mod_cast le_max_of_le_left acrossPos
            gcongr
          _ < Format.binary64.overflow := below
      refine ⟨_, Reduction.scale_eq_ok.mpr ⟨inRange, rfl⟩, (scaledSides_succeed narrow low).mpr ?_⟩
      rw [exact quotient]
      exact ⟨quotient, below⟩

/-- An accepted scale resolves, or fails for its geometry, exactly if it can be expressed. -/
theorem Accepted.target_raises {r : ScaleRequest} (accepted : r.Accepted) {source : Size}
    (narrow : source.width ≤ 2 ^ 20) (low : source.height ≤ 2 ^ 20) (reduction : Reduction) :
    Raises Announced (r.target source.toPair reduction) ↔ r.Expressible source reduction := by
  have checked : Raises Announced (r.uncheckedTarget source.toPair reduction >>= fun target => do
      if target.1 ≤ 0 ∨ target.2 ≤ 0 then
        throw (.geometry (.nonPositiveTarget source.toPair.1 source.toPair.2) "scale" target)
      return target) ↔ Succeeds (r.uncheckedTarget source.toPair reduction) := by
    refine raises_announced_bind (r.uncheckedTarget_raises ..) fun target _ => ?_
    exact .guard (.raster rfl) (raises_ok target)
  unfold target
  cases nonempty : source.isEmpty with
  | false =>
    have sides : ¬(source.toPair.1 = 0 ∨ source.toPair.2 = 0) := by
      simp only [Size.isEmpty, Bool.or_eq_false_iff, beq_eq_false_iff_ne] at nonempty
      simp only [Size.toPair]
      omega
    rw [if_neg fun unscalable => sides unscalable.2]
    exact checked.trans
      (accepted.uncheckedTarget_succeeds (by omega) (by omega) nonempty reduction)
  | true =>
    refine iff_of_true ?_ (.inl nonempty)
    by_cases filled : r.mode = .fill
    · rw [if_neg fun unscalable => unscalable.1 filled, checked]
      cases accepted with
      | @fill width height => exact succeeds_ok ((width : Int), (height : Int))
      | _ => cases filled
    · have unscalable : source.toPair.1 = 0 ∨ source.toPair.2 = 0 := by
        simp only [Size.isEmpty, Bool.or_eq_true, beq_iff_eq] at nonempty
        simp only [Size.toPair]
        omega
      rw [if_pos ⟨filled, unscalable⟩]
      exact raises_throw (.raster rfl) _

end ScaleRequest

end RasterEdit
