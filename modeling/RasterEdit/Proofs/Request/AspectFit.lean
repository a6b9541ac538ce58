import RasterEdit.Proofs.Request.Accepted
import RasterEdit.Proofs.Request.Reduced

/-!
# Sides that follow the other one

A request for one side has the other one follow in proportion. The binary64 quotient on the way
does not show: the side that follows is the integer nearest to the exact proportion, halves rounded
up.
-/

set_option autoImplicit false

namespace RasterEdit

open Binary Result

namespace ScaleRequest

variable {r : ScaleRequest} {source : Size}

/-- A resolved target is refused exactly if one of its sides is empty. -/
theorem target_of_unchecked (wide : 0 < source.width) (high : 0 < source.height)
    {reduction : Reduction} {width height : Nat}
    (resolved : r.uncheckedTarget source.toPair reduction = .ok (width, height)) :
    r.target source.toPair reduction =
      if width = 0 ∨ height = 0 then
        .error (.geometry (.nonPositiveTarget source.width source.height) "scale"
          (some (width, height)))
      else .ok (width, height) := by
  have nonempty : ¬ (r.mode ≠ .fill ∧ (source.toPair.1 = 0 ∨ source.toPair.2 = 0)) := by
    simp only [Size.toPair]
    omega
  have empty : (width : Int) ≤ 0 ∨ (height : Int) ≤ 0 ↔ width = 0 ∨ height = 0 := by omega
  simp only [target, if_neg nonempty, resolved, ok_bind, empty]
  split
  · rfl
  · rfl

theorem target_of_pos (wide : 0 < source.width) (high : 0 < source.height)
    {reduction : Reduction} {width height : Nat}
    (resolved : r.uncheckedTarget source.toPair reduction = .ok (width, height))
    (width_pos : 0 < width) (height_pos : 0 < height) :
    r.target source.toPair reduction = .ok (width, height) := by
  rw [target_of_unchecked wide high resolved, if_neg (by omega)]

theorem proportion_eq {length n d : Nat} (positive : 0 < d) (short : length * n < 2 ^ 50)
    (divisor : d < 2 ^ 50) :
    ∃ quotient, realOfFraction ((length : Int) * n) d = .ok quotient ∧
      roundHalfAway quotient = .ok (((2 * length * n + d) / (2 * d) : Nat) : Int) := by
  have rounded := Real64.rounded_fraction (n := length * n) positive (by omega)
  have nearest := Real64.roundHalfAway_fraction positive short divisor
  rw [← Nat.mul_assoc] at nearest
  refine ⟨Real64.ofFraction (length * n : Nat) d, ?_, nearest⟩
  rw [← Nat.cast_mul, realOfFraction_eq_ok]
  exact ⟨rounded.isFinite, rfl⟩

theorem uncheckedTarget_fitWidth {width : Nat} (mode : r.mode = .fitWidth)
    (wanted : r.width = some (.whole width)) (wide : 0 < source.width)
    (short : source.height * width < 2 ^ 50) (narrow : source.width < 2 ^ 50)
    (reduction : Reduction) :
    r.uncheckedTarget source.toPair reduction =
      .ok (width, ((2 * source.height * width + source.width) / (2 * source.width) : Nat)) := by
  obtain ⟨quotient, expressed, rounded⟩ := proportion_eq wide short narrow
  simp only [uncheckedTarget, mode, wanted, require, Number.truncate, Size.toPair, expressed,
    rounded, ok_bind]
  rfl

theorem uncheckedTarget_fitHeight {height : Nat} (mode : r.mode = .fitHeight)
    (wanted : r.height = some (.whole height)) (high : 0 < source.height)
    (short : source.width * height < 2 ^ 50) (low : source.height < 2 ^ 50)
    (reduction : Reduction) :
    r.uncheckedTarget source.toPair reduction =
      .ok (((2 * source.width * height + source.height) / (2 * source.height) : Nat), height) := by
  obtain ⟨quotient, expressed, rounded⟩ := proportion_eq high short low
  simp only [uncheckedTarget, mode, wanted, require, Number.truncate, Size.toPair, expressed,
    rounded, ok_bind]
  rfl

end ScaleRequest

/-- The side that follows is the exact proportion rounded to the nearest integer, halves up; the
request is refused exactly if nothing is left of that side. -/
theorem aspect_fit_rounds_exactly {fields : Fields} {r : ScaleRequest}
    (read : ScaleRequest.ofFields fields = .ok r) {source : Size} (wide : 0 < source.width)
    (high : 0 < source.height) (reduction : Reduction) :
    (r.mode = .fitWidth → ∃ width : Nat, r.width = some (.whole width) ∧
      (source.height * width < 2 ^ 50 → source.width < 2 ^ 50 →
        let height := (2 * source.height * width + source.width) / (2 * source.width)
        r.target source.toPair reduction =
          if height = 0 then
            .error (.geometry (.nonPositiveTarget source.width source.height) "scale"
              (some (width, height)))
          else .ok (width, height))) ∧
    (r.mode = .fitHeight → ∃ height : Nat, r.height = some (.whole height) ∧
      (source.width * height < 2 ^ 50 → source.height < 2 ^ 50 →
        let width := (2 * source.width * height + source.height) / (2 * source.height)
        r.target source.toPair reduction =
          if width = 0 then
            .error (.geometry (.nonPositiveTarget source.width source.height) "scale"
              (some (width, height)))
          else .ok (width, height))) := by
  have accepted := ScaleRequest.accepted read
  constructor
  · intro mode
    cases accepted with
    | @fitWidth width _ _ positive =>
      refine ⟨width, rfl, fun short narrow => ?_⟩
      have resolved := ScaleRequest.uncheckedTarget_fitWidth mode rfl wide short narrow reduction
      simpa only [positive.ne', false_or] using
        ScaleRequest.target_of_unchecked wide high resolved
    | _ => cases mode
  · intro mode
    cases accepted with
    | @fitHeight height _ _ positive =>
      refine ⟨height, rfl, fun short low => ?_⟩
      have resolved := ScaleRequest.uncheckedTarget_fitHeight mode rfl high short low reduction
      simpa only [positive.ne', or_false] using
        ScaleRequest.target_of_unchecked wide high resolved
    | _ => cases mode

theorem aspect_fit_rounds_exactly_half_up :
    ∃ r, ScaleRequest.ofFields [("mode", .text "aspect_fit_width"), ("width", .whole 400)] =
        .ok r ∧ r.mode = .fitWidth ∧ r.target (800, 601) .none = .ok (400, 301) := by
  have read : ScaleRequest.ofFields [("mode", .text "aspect_fit_width"), ("width", .whole 400)] =
      .ok ⟨.fitWidth, some (.whole 400), none, none⟩ := rfl
  have wide : 0 < (⟨800, 601⟩ : Size).width := by decide
  have high : 0 < (⟨800, 601⟩ : Size).height := by decide
  obtain ⟨width, wanted, settled⟩ := (aspect_fit_rounds_exactly read wide high .none).1 rfl
  cases wanted
  exact ⟨_, read, rfl, settled (by decide) (by decide)⟩

end RasterEdit
