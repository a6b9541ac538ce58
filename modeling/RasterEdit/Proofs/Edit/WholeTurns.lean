import RasterEdit.Edit.Rotate
import RasterEdit.Proofs.Binary.Remainder
import RasterEdit.Proofs.Result

/-!
# Whole turns

The angle of a rotate request is reduced to a turn in `[0, 360)`. It differs from the angle asked
for by whole turns, up to one rounding: the angles that are taken for whole turns, and leave a
raster as it is, are the multiples of 360 and some next to them.
-/

set_option autoImplicit false

namespace RasterEdit

open Binary

theorem Outcome.produce_ne_unchanged {settings : Settings} {part operation text : String}
    {before : Raster} {planned : Int × Int} {make : Unit → Result Raster}
    {note : Option Journal.Entry} :
    produce settings part operation before planned text make ≠ .ok (.unchanged note) := by
  intro kept
  obtain ⟨-, -, kept⟩ := Result.bind_eq_ok.mp kept
  obtain ⟨after, -, kept⟩ := Result.bind_eq_ok.mp kept
  cases kept

namespace RotateRequest

variable {request : RotateRequest} (finite : request.degrees.isFinite = true)

include finite

/-- Only a rest that is rounded to a whole turn is not kept; counting it as zero adds that turn. -/
theorem normalized_near :
    request.normalized.isFinite = true ∧
      (0 ≤ request.normalized.number ∧ request.normalized.number < 360) ∧
      ∃ k : Int, |request.degrees.number - 360 * k - request.normalized.number| ≤ 1 / 2 ^ 45 := by
  obtain ⟨wrappedFinite, ⟨nonneg, atMost⟩, k, near⟩ :=
    Real64.wrap_near finite (show 0 < 360 by decide) (by decide)
  have turn : (Real64.ofInt 360).number = 360 := Real64.number_ofInt (by decide)
  have full : Binary.equal (request.degrees.wrap 360) (Real64.ofInt 360) = true ↔
      (request.degrees.wrap 360).number = 360 := by
    rw [equal_iff (by decide) (isNaN_of_isFinite wrappedFinite) (by decide), turn]
  have origin : (0 : Real64).number = 0 := number_of_isZero rfl
  push_cast at atMost near
  rw [normalized]
  split
  · next whole =>
    have rounded := full.mp whole
    refine ⟨rfl, ?_, k + 1, ?_⟩
    · rw [origin]
      exact ⟨le_rfl, by norm_num⟩
    · rw [rounded] at near
      rw [origin]
      push_cast
      calc |request.degrees.number - 360 * (k + 1) - 0|
          = |request.degrees.number - 360 * k - 360| := by
            congr 1
            ring
        _ ≤ 1 / 2 ^ 45 := near
  · next short =>
    exact ⟨wrappedFinite, ⟨nonneg, lt_of_le_of_ne atMost (mt full.mpr short)⟩, k, near⟩

theorem isWholeTurn_iff : request.isWholeTurn = true ↔ request.normalized.number = 0 := by
  obtain ⟨normalizedFinite, -⟩ := normalized_near finite
  rw [isWholeTurn, equal_iff (by decide) (isNaN_of_isFinite normalizedFinite) rfl,
    number_of_isZero (x := (0 : Real64)) rfl]

theorem isWholeTurn_near (whole : request.isWholeTurn = true) :
    ∃ k : Int, |request.degrees.number - 360 * k| ≤ 1 / 2 ^ 45 := by
  obtain ⟨-, -, k, near⟩ := normalized_near finite
  rw [(isWholeTurn_iff finite).mp whole, sub_zero] at near
  exact ⟨k, near⟩

theorem isWholeTurn_multiple {k : Int} (multiple : request.degrees.number = 360 * k) :
    request.isWholeTurn = true := by
  have none : request.degrees.wrap 360 = zero false :=
    Real64.wrap_multiple finite (by decide) (by decide) (by exact_mod_cast multiple)
  rw [isWholeTurn, normalized, none]
  rfl

end RotateRequest

/-- Nothing is done exactly for the angles that are taken for whole turns. -/
theorem Raster.rotate_unchanged_iff {settings : Settings} {request : RotateRequest} {r : Raster} :
    (∃ note, r.rotate settings request = .ok (.unchanged note)) ↔ request.isWholeTurn = true := by
  rw [Raster.rotate]
  cases request.isWholeTurn with
  | true => exact iff_of_true ⟨_, rfl⟩ rfl
  | false =>
    simp only [Bool.false_eq_true, iff_false, not_exists, ↓reduceIte]
    intro note kept
    split at kept
    · cases kept
    · obtain ⟨canvas, -, kept⟩ := Result.bind_eq_ok.mp kept
      exact Outcome.produce_ne_unchanged kept

/-- The reduced angle is in range and differs from the angle asked for by whole turns and at most
one rounding, and so a raster is left as it is only for almost whole turns; it is for every exact
one. -/
theorem angle_reduction_honest {request : RotateRequest}
    (finite : request.degrees.isFinite = true) :
    (request.normalized.isFinite = true ∧ 0 ≤ request.normalized.number ∧
      request.normalized.number < 360) ∧
    (∃ k : Int, |request.degrees.number - 360 * k - request.normalized.number| ≤ 1 / 2 ^ 45) ∧
    (∀ (settings : Settings) (r : Raster) (note : Option Journal.Entry),
      r.rotate settings request = .ok (.unchanged note) →
        ∃ k : Int, |request.degrees.number - 360 * k| ≤ 1 / 2 ^ 45) ∧
    (∀ k : Int, request.degrees.number = 360 * k → ∀ (settings : Settings) (r : Raster),
      ∃ note, r.rotate settings request = .ok (.unchanged note)) := by
  obtain ⟨normalizedFinite, inRange, near⟩ := RotateRequest.normalized_near finite
  refine ⟨⟨normalizedFinite, inRange⟩, near, ?_, ?_⟩
  · intro settings r note kept
    exact RotateRequest.isWholeTurn_near finite (Raster.rotate_unchanged_iff.mp ⟨note, kept⟩)
  · intro k multiple settings r
    exact Raster.rotate_unchanged_iff.mpr (RotateRequest.isWholeTurn_multiple finite multiple)

theorem angle_reduction_honest_below_zero :
    let request : RotateRequest := ⟨Real64.ofFraction (-1) (2 ^ 60)⟩
    request.degrees.wrap 360 = Real64.ofInt 360 ∧ request.normalized = 0 ∧
      ∃ k : Int, |request.degrees.number - 360 * k - request.normalized.number| ≤ 1 / 2 ^ 45 :=
  ⟨by decide +kernel, by decide +kernel, (angle_reduction_honest (by decide +kernel)).2.1⟩

end RasterEdit
