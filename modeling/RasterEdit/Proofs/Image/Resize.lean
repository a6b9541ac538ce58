import RasterEdit.Image.Resample

/-!
# Sizes of pictures

Every way of resizing ends at exactly the wanted sides, also where a pass is left out because the
side is right already. Taking a raster into a picture and a picture into a raster keeps the sides.
-/

set_option autoImplicit false

namespace RasterEdit

namespace Resample

variable {n : Nat}

private theorem pass_sides (kernel : Kernel) (width : Nat) (limit : Real64)
    (g : Grid (Vector UInt8 n)) :
    (if isTrivial g.width width limit then g else across kernel width limit g).width = width ∧
      (if isTrivial g.width width limit then g else across kernel width limit g).height =
        g.height := by
  split
  · next trivial =>
    simp only [isTrivial, Bool.and_eq_true, beq_iff_eq] at trivial
    exact ⟨trivial.1, rfl⟩
  · exact ⟨rfl, rfl⟩

private theorem pass_sides_down (kernel : Kernel) (height : Nat) (limit : Real64)
    (g : Grid (Vector UInt8 n)) :
    (if isTrivial g.height height limit then g else down kernel height limit g).width = g.width ∧
      (if isTrivial g.height height limit then g else down kernel height limit g).height =
        height := by
  split
  · next trivial =>
    simp only [isTrivial, Bool.and_eq_true, beq_iff_eq] at trivial
    exact ⟨rfl, trivial.1⟩
  · exact ⟨rfl, rfl⟩

theorem resize_sides (kernel : Kernel) (width height : Nat) (limits : Real64 × Real64)
    (g : Grid (Vector UInt8 n)) :
    (resize kernel width height limits g).width = width ∧
      (resize kernel width height limits g).height = height := by
  simp only [resize]
  split
  · exact ⟨(pass_sides ..).1, (pass_sides ..).2.trans (pass_sides_down ..).2⟩
  · exact ⟨(pass_sides_down ..).1.trans (pass_sides ..).1, (pass_sides_down ..).2⟩

theorem resizeFine_sides (gap : Real64) (width height : Nat) (g : Grid (Vector UInt8 n)) :
    (resizeFine gap width height g).width = width ∧
      (resizeFine gap width height g).height = height := by
  simp only [resizeFine]
  split
  · exact resize_sides ..
  · split
    · exact ⟨rfl, rfl⟩
    · exact resize_sides ..

end Resample

namespace Picture

def size : Picture → Size
  | bitonal pixels => ⟨pixels.width, pixels.height⟩
  | gray pixels => ⟨pixels.width, pixels.height⟩
  | rgb pixels => ⟨pixels.width, pixels.height⟩
  | rgba pixels => ⟨pixels.width, pixels.height⟩

theorem Quality.resize_sides {n : Nat} (quality : Quality) (width height : Nat)
    (g : Grid (Vector UInt8 n)) :
    (quality.resize width height g).width = width ∧
      (quality.resize width height g).height = height := by
  cases quality with
  | fast => exact Resample.resize_sides ..
  | fine gap => exact Resample.resizeFine_sides ..

theorem size_resampled (quality : Quality) (width height : Nat) (p : Picture) :
    (p.resampled quality width height).size = ⟨width, height⟩ := by
  cases p with
  | bitonal pixels => rfl
  | gray pixels =>
    obtain ⟨across, down⟩ := quality.resize_sides width height (pixels.map (Vector.replicate 1))
    simp only [resampled, size, Grid.width_map, Grid.height_map, across, down]
  | rgb pixels =>
    obtain ⟨across, down⟩ := quality.resize_sides width height pixels
    simp only [resampled, size, across, down]
  | rgba pixels =>
    obtain ⟨across, down⟩ := quality.resize_sides width height (pixels.map Colour.premultiply)
    simp only [resampled, size, Grid.width_map, Grid.height_map, across, down]

end Picture

namespace Raster

/-- A raster of a standard layout has a picture of its size, whichever operation asks for it. -/
theorem toPicture_of_standard {r : Raster} (standard : r.layout.isStandard = true) :
    ∃ p : Picture, p.size = r.size ∧ ∀ operation, r.toPicture operation = .ok p := by
  cases r with
  | custom kind axis pixels => cases standard
  | _ => exact ⟨_, rfl, fun _ => rfl⟩

theorem ofPicture_of_standard {layout : Layout} (standard : layout.isStandard = true)
    (p : Picture) :
    ∃ r : Raster, ofPicture layout p = .ok r ∧ r.layout = layout ∧ r.size = p.size := by
  cases layout with
  | custom => cases standard
  | _ => exact ⟨_, rfl, rfl, by cases p <;> rfl⟩

theorem size_of_toPicture {operation : String} {r : Raster} {p : Picture}
    (pictured : r.toPicture operation = .ok p) : p.size = r.size := by
  cases r with
  | custom kind axis pixels => cases pictured
  | _ => cases pictured; rfl

theorem size_of_ofPicture {layout : Layout} {p : Picture} {r : Raster}
    (taken : ofPicture layout p = .ok r) : r.size = p.size := by
  cases layout with
  | custom => cases taken
  | _ => cases taken; cases p <;> rfl

theorem size_adoptPicture (p : Picture) : (adoptPicture p).size = p.size := by
  cases p <;> rfl

end Raster

end RasterEdit
