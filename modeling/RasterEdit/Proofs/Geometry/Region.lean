import Mathlib.Tactic.Linarith
import RasterEdit.Proofs.Result
import RasterEdit.Request.Crop

/-!
# Resolved regions

A region that a crop request resolves to lies inside the raster it was resolved on, whatever the
coordinates of the request are.
-/

set_option autoImplicit false

namespace RasterEdit

/-- An extent given as an integer is refused exactly if it is negative. -/
theorem Size.extent_whole {fields : Fields} (name : String) {n : Int}
    (given : fields.get? name = some (.whole n)) :
    Size.extent fields name = if n < 0 then .faulty [⟨name, .below 0⟩] else .valid n.toNat := by
  simp only [Size.extent, Field.required, given, Field.integerAtLeast, Field.restricted,
    Field.integer]
  by_cases negative : n < 0 <;> simp [negative, Checked.map]

theorem Region.ofInts_eq_ok {x y width height : Int} {region : Region}
    (accepted : Region.ofInts x y width height = .ok region) :
    (0 ≤ x ∧ 0 ≤ y ∧ 0 ≤ width ∧ 0 ≤ height) ∧
      region = ⟨x.toNat, y.toNat, width.toNat, height.toNat⟩ := by
  unfold Region.ofInts Region.ofFields at accepted
  rw [Size.extent_whole "x" rfl, Size.extent_whole "y" rfl,
    Size.extent_whole "width" rfl, Size.extent_whole "height" rfl] at accepted
  by_cases hx : x < 0 <;> by_cases hy : y < 0 <;> by_cases hw : width < 0 <;>
    by_cases hh : height < 0 <;>
    simp [hx, hy, hw, hh, Checked.toResult, Functor.map, Seq.seq, Checked.map, Checked.apply]
      at accepted
  subst accepted
  exact ⟨by omega, rfl⟩

theorem Region.ofInts_of_nonneg {x y width height : Int} (hx : 0 ≤ x) (hy : 0 ≤ y)
    (hw : 0 ≤ width) (hh : 0 ≤ height) :
    Region.ofInts x y width height = .ok ⟨x.toNat, y.toNat, width.toNat, height.toNat⟩ := by
  unfold Region.ofInts Region.ofFields
  rw [Size.extent_whole "x" rfl, Size.extent_whole "y" rfl, Size.extent_whole "width" rfl,
    Size.extent_whole "height" rfl, if_neg hx.not_gt, if_neg hy.not_gt, if_neg hw.not_gt,
    if_neg hh.not_gt]
  rfl

theorem Region.isWithin_iff {region : Region} {bounds : Size} :
    region.isWithin bounds = true ↔
      region.x + region.width ≤ bounds.width ∧ region.y + region.height ≤ bounds.height := by
  rw [isWithin, Bool.and_eq_true, decide_eq_true_eq, decide_eq_true_eq, right, bottom]

namespace CropRequest

theorem add_clipped_le (side start extent : Int) : start + clipped side start extent ≤ side := by
  unfold clipped
  split <;> omega

/-- No part of a resolved region is beyond the right or the bottom edge. -/
theorem region_isWithin {r : CropRequest} {size : Size} {reduction : Reduction} {region : Region}
    (resolved : r.region size.toPair reduction = .ok region) : region.isWithin size = true := by
  unfold CropRequest.region at resolved
  rw [Region.isWithin_iff]
  cases full : r.full with
  | true =>
    simp only [full, ↓reduceIte] at resolved
    obtain ⟨-, rfl⟩ := Region.ofInts_eq_ok resolved
    simp [Size.toPair]
  | false =>
    simp only [full, Bool.false_eq_true, ↓reduceIte] at resolved
    obtain ⟨⟨x, y, width, height⟩, -, resolved⟩ := Result.bind_eq_ok.mp resolved
    simp only at resolved
    split at resolved
    · cases resolved
    · have across := add_clipped_le size.toPair.1 x width
      have down := add_clipped_le size.toPair.2 y height
      obtain ⟨nonneg, rfl⟩ := Region.ofInts_eq_ok resolved
      have width_eq : size.toPair.1 = size.width := rfl
      have height_eq : size.toPair.2 = size.height := rfl
      simp only
      omega

end CropRequest

end RasterEdit
