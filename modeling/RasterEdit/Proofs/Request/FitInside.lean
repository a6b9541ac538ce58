import RasterEdit.Proofs.Request.AspectFit
import RasterEdit.Proofs.Request.Share

/-!
# Sizes inside a box

A request for a box multiplies both sides of the source by the smaller of two rounded factors. The
side that the factor comes from fills the box, and the other one stays inside it.
-/

set_option autoImplicit false

namespace RasterEdit

open Binary Result

/-- A size that is not empty lies inside a box and touches it. -/
structure Size.Fills (size box : Size) : Prop where
  width_pos : 1 ≤ size.width
  width_le : size.width ≤ box.width
  height_pos : 1 ≤ size.height
  height_le : size.height ≤ box.height
  touches : size.width = box.width ∨ size.height = box.height

namespace ScaleRequest

/-! ## The smaller factor -/

section Smaller

variable {n d n' d' : Nat} (part : Short n) (whole : Short d) (part' : Short n')
  (whole' : Short d')

include part whole part' whole'

theorem smaller_left (le : n * d' ≤ n' * d) :
    smaller (Real64.ofFraction n d) (Real64.ofFraction n' d') = Real64.ofFraction n d := by
  have ordered := part.magnitude_mono whole part' whole' le
  rw [smaller, if_neg]
  rw [(part'.rounded whole').lt_iff (part.rounded whole)]
  exact not_lt.mpr ordered

theorem smaller_right (le : n' * d ≤ n * d') :
    smaller (Real64.ofFraction n d) (Real64.ofFraction n' d') = Real64.ofFraction n' d' := by
  have first := part.rounded whole
  have second := part'.rounded whole'
  have ordered := part'.magnitude_mono whole' part whole le
  unfold smaller
  split
  · rfl
  · next above =>
    rw [second.lt_iff first, not_lt] at above
    exact first.eq_of_magnitude_eq second (le_antisymm above ordered)

end Smaller

/-! ## Targets -/

/-- A request for a box, on a source that is not empty; all sides are short. -/
structure IntoBox (r : ScaleRequest) (source box : Size) : Prop where
  mode : r.mode = .fitInside
  across : r.width = some (.whole box.width)
  down : r.height = some (.whole box.height)
  wide : Short source.width
  high : Short source.height
  box_wide : Short box.width
  box_high : Short box.height

namespace IntoBox

variable {r : ScaleRequest} {source box : Size}

theorem uncheckedTarget_eq (inside : r.IntoBox source box) (reduction : Reduction) :
    r.uncheckedTarget source.toPair reduction = do
      let factor := smaller (Real64.ofFraction box.width source.width)
        (Real64.ofFraction box.height source.height)
      return (← scaledSide source.width factor, ← scaledSide source.height factor) := by
  have expressed {n d : Nat} (part : Short n) (whole : Short d) :
      realOfFraction n d = .ok (Real64.ofFraction n d) :=
    realOfFraction_eq_ok.mpr ⟨(part.rounded whole).isFinite, rfl⟩
  simp only [uncheckedTarget, inside.mode, inside.across, inside.down, require, quotient,
    Number.integer?, Size.toPair, expressed inside.box_wide inside.wide,
    expressed inside.box_high inside.high, ok_bind]

theorem uncheckedTarget_across (inside : r.IntoBox source box)
    (tight : box.width * source.height ≤ box.height * source.width) {height : Nat}
    (follows : scaledSide source.height (Real64.ofFraction box.width source.width) =
      .ok (height : Int)) (reduction : Reduction) :
    r.uncheckedTarget source.toPair reduction = .ok (box.width, height) := by
  rw [inside.uncheckedTarget_eq,
    smaller_left inside.box_wide inside.wide inside.box_high inside.high tight]
  simp only [scaledSide_self inside.box_wide inside.wide, follows, ok_bind]
  rfl

theorem uncheckedTarget_down (inside : r.IntoBox source box)
    (tight : box.height * source.width ≤ box.width * source.height) {width : Nat}
    (follows : scaledSide source.width (Real64.ofFraction box.height source.height) =
      .ok (width : Int)) (reduction : Reduction) :
    r.uncheckedTarget source.toPair reduction = .ok (width, box.height) := by
  rw [inside.uncheckedTarget_eq,
    smaller_right inside.box_wide inside.wide inside.box_high inside.high tight]
  simp only [scaledSide_self inside.box_high inside.high, follows, ok_bind]
  rfl

/-- Before it is checked, the target lies inside the box and touches it. A side is empty exactly if
less than half a pixel is left of it. -/
theorem exists_uncheckedTarget (inside : r.IntoBox source box) (reduction : Reduction) :
    ∃ width height : Nat, r.uncheckedTarget source.toPair reduction = .ok (width, height) ∧
      width ≤ box.width ∧ height ≤ box.height ∧ (width = box.width ∨ height = box.height) ∧
      (width = 0 ∨ height = 0 ↔ 2 * (source.height * box.width) < source.width ∨
        2 * (source.width * box.height) < source.height) := by
  have box_wide := inside.box_wide.pos
  have box_high := inside.box_high.pos
  rcases Nat.le_total (box.width * source.height) (box.height * source.width) with tight | tight
  · obtain ⟨height, follows, height_le, empty⟩ :=
      exists_scaledSide_le inside.high inside.box_wide inside.wide inside.box_high tight
    refine ⟨box.width, height, inside.uncheckedTarget_across tight follows reduction,
      Nat.le_refl _, height_le, .inl rfl, ?_⟩
    -- The share of the width by its own factor is whole, so only the height may be empty.
    have reaches := Nat.le_mul_of_pos_left source.height box_wide
    rw [Nat.mul_comm box.height] at tight
    omega
  · obtain ⟨width, follows, width_le, empty⟩ :=
      exists_scaledSide_le inside.wide inside.box_high inside.high inside.box_wide tight
    refine ⟨width, box.height, inside.uncheckedTarget_down tight follows reduction, width_le,
      Nat.le_refl _, .inr rfl, ?_⟩
    have reaches := Nat.le_mul_of_pos_left source.width box_high
    rw [Nat.mul_comm box.width] at tight
    omega

theorem target_fills (inside : r.IntoBox source box) (reduction : Reduction) :
    (OutOfShape (r.target source.toPair reduction) ↔
        2 * (source.height * box.width) < source.width ∨
          2 * (source.width * box.height) < source.height) ∧
      (OutOfShape (r.target source.toPair reduction) ∨
        ∃ size : Size, r.target source.toPair reduction = .ok size.toPair ∧ size.Fills box) := by
  obtain ⟨width, height, resolved, width_le, height_le, touches, empty⟩ :=
    inside.exists_uncheckedTarget reduction
  have target := target_of_unchecked inside.wide.pos inside.high.pos resolved
  by_cases nothing : width = 0 ∨ height = 0
  · rw [if_pos nothing] at target
    have refused : OutOfShape (r.target source.toPair reduction) := ⟨_, _, _, target⟩
    exact ⟨iff_of_true refused (empty.mp nothing), .inl refused⟩
  · rw [if_neg nothing] at target
    refine ⟨iff_of_false ?_ (empty.not.mp nothing), .inr ⟨⟨width, height⟩, target, ?_⟩⟩
    · rintro ⟨cause, operation, given, refused⟩
      rw [target] at refused
      cases refused
    · obtain ⟨width_ne, height_ne⟩ := not_or.mp nothing
      exact ⟨Nat.pos_of_ne_zero width_ne, width_le, Nat.pos_of_ne_zero height_ne, height_le,
        touches⟩

end IntoBox

end ScaleRequest

/-- An accepted request for a box is refused exactly if less than half a pixel is left of one side,
and otherwise its target lies inside the box and touches it. -/
theorem fit_inside_fills_box {fields : Fields} {r : ScaleRequest}
    (read : ScaleRequest.ofFields fields = .ok r) (mode : r.mode = .fitInside) {source : Size}
    (wide : 0 < source.width) (high : 0 < source.height) (narrow : source.width < 2 ^ 50)
    (low : source.height < 2 ^ 50) (reduction : Reduction) :
    ∃ box : Size, r.width = some (.whole box.width) ∧ r.height = some (.whole box.height) ∧
      (box.width < 2 ^ 50 → box.height < 2 ^ 50 →
        (OutOfShape (r.target source.toPair reduction) ↔
            2 * (source.height * box.width) < source.width ∨
              2 * (source.width * box.height) < source.height) ∧
          (OutOfShape (r.target source.toPair reduction) ∨
            ∃ size : Size, r.target source.toPair reduction = .ok size.toPair ∧
              size.Fills box)) := by
  cases ScaleRequest.accepted read with
  | @fitInside width height percent box_wide box_high =>
    refine ⟨⟨width, height⟩, rfl, rfl, fun box_narrow box_low => ?_⟩
    have inside : ScaleRequest.IntoBox
        ⟨.fitInside, some (.whole width), some (.whole height), percent⟩ source
        ⟨width, height⟩ :=
      ⟨rfl, rfl, rfl, ⟨wide, narrow⟩, ⟨high, low⟩, ⟨box_wide, box_narrow⟩, ⟨box_high, box_low⟩⟩
    exact inside.target_fills reduction
  | _ => cases mode

theorem fit_inside_fills_box_upright :
    ∃ r, ScaleRequest.ofFields [("mode", .text "aspect_fit_inside"), ("width", .whole 13),
        ("height", .whole 59)] = .ok r ∧ r.mode = .fitInside ∧
      ∃ size : Size, r.target (6, 27) .none = .ok size.toPair ∧ size.Fills ⟨13, 59⟩ := by
  have read : ScaleRequest.ofFields [("mode", .text "aspect_fit_inside"), ("width", .whole 13),
      ("height", .whole 59)] = .ok ⟨.fitInside, some (.whole 13), some (.whole 59), none⟩ := rfl
  have wide : 0 < (⟨6, 27⟩ : Size).width := by decide
  have high : 0 < (⟨6, 27⟩ : Size).height := by decide
  obtain ⟨⟨width, height⟩, across, down, settled⟩ :=
    fit_inside_fills_box read rfl wide high (by decide) (by decide) .none
  cases across
  cases down
  obtain ⟨refused, filled⟩ := settled (by decide) (by decide)
  exact ⟨_, read, rfl, filled.resolve_left fun out => absurd (refused.mp out) (by decide)⟩

end RasterEdit
