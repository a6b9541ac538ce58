import RasterEdit.Edit.Crop
import RasterEdit.Edit.Flip
import RasterEdit.Proofs.Geometry.Region

/-!
# Moving pixels

Crops and flips move cells without looking at them. They commute with every change of the cells'
values, and the sides of their results follow from the sides of the raster.
-/

set_option autoImplicit false

namespace RasterEdit

/-- A movement of cells that commutes with changing their values. -/
def Grid.Natural (move : {α : Type} → Grid α → Grid α) : Prop :=
  ∀ {α β : Type} (f : α → β) (g : Grid α), move (g.map f) = (move g).map f

theorem Grid.natural_crop (region : Region) : Grid.Natural (Grid.crop region) := by
  intro α β f g
  exact Grid.map_window f g _ _ _ _ (by rw [Grid.width_map]; omega) (by rw [Grid.height_map]; omega)

theorem Grid.sides_crop {α : Type} {g : Grid α} {size : Size} (width_eq : g.width = size.width)
    (height_eq : g.height = size.height) {region : Region} (fits : region.isWithin size = true) :
    (g.crop region).width = region.width ∧ (g.crop region).height = region.height := by
  obtain ⟨across, down⟩ := Region.isWithin_iff.mp fits
  constructor
  · change min region.width (g.width - min region.x g.width) = region.width
    omega
  · change min region.height (g.height - min region.y g.height) = region.height
    omega

theorem Grid.natural_flip (direction : Flip) : Grid.Natural (Grid.flip direction) := by
  intro α β f g
  cases direction with
  | horizontal => exact g.map_flipHorizontal f
  | vertical => exact g.map_flipVertical f

namespace Raster

theorem rearrange_congr {r : Raster} {move move' : {α : Type} → Grid α → Grid α}
    (same : ∀ {α : Type} (g : Grid α), g.width = r.width → g.height = r.height →
      move g = move' g) : r.rearrange move = r.rearrange move' := by
  cases r with
  | colour order pixels => exact congrArg (colour order) (same pixels rfl rfl)
  | alpha order pixels => exact congrArg (alpha order) (same pixels rfl rfl)
  | gray pixels => exact congrArg gray (same pixels rfl rfl)
  | bitonal pixels => exact congrArg bitonal (same pixels rfl rfl)
  | custom kind axis pixels => exact congrArg (custom kind axis) (same pixels rfl rfl)

theorem rearrange_rearrange (move move' : {α : Type} → Grid α → Grid α) (r : Raster) :
    (r.rearrange move).rearrange move' = r.rearrange fun g => move' (move g) := by
  cases r <;> rfl

theorem rearrange_id (r : Raster) : (r.rearrange fun g => g) = r := by
  cases r <;> rfl

theorem size_rearrange_crop {r : Raster} {region : Region}
    (within : region.isWithin r.size = true) :
    (r.rearrange (Grid.crop region)).size = region.size := by
  have sides {α : Type} (g : Grid α) (width_eq : g.width = r.size.width)
      (height_eq : g.height = r.size.height) :
      (⟨(g.crop region).width, (g.crop region).height⟩ : Size) = region.size := by
    obtain ⟨width, height⟩ := Grid.sides_crop width_eq height_eq within
    rw [width, height]
    rfl
  cases r <;> exact sides _ rfl rfl

theorem size_rearrange_flip (r : Raster) (direction : Flip) :
    (r.rearrange (Grid.flip direction)).size = r.size := by
  cases direction <;> cases r <;> rfl

end Raster

end RasterEdit
