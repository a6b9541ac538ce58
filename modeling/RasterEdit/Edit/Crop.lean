import RasterEdit.Edit.Outcome
import RasterEdit.Request.Crop

/-!
# Cropping

Keeps a region. Pixels are only moved, so every layout can be cropped.
-/

set_option autoImplicit false

namespace RasterEdit

/-- The cells of a region, as far as they lie inside the grid. -/
def Grid.crop {α : Type} (region : Region) (g : Grid α) : Grid α :=
  let x := min region.x g.width
  let y := min region.y g.height
  g.window x y (min region.width (g.width - x)) (min region.height (g.height - y))
    (by omega) (by omega)

def Raster.crop (settings : Settings) (request : CropRequest) (reduction : Reduction)
    (r : Raster) : Result Outcome := do
  if request.coversAll then
    return .unchanged (some (.idle "crop" ("no-op crop of " ++ r.size.shown ++ " raster")))
  let region ← request.region r.size.toPair reduction
  if region.covers r.size then
    return .unchanged (some (.idle "crop"
      ("region " ++ region.shown ++ " covers " ++ r.size.shown ++ " raster")))
  produce settings "crop" "crop" r region.size.toPair
    ("cropped " ++ r.size.shown ++ " image to " ++ region.shown)
    fun _ => .ok (r.rearrange (Grid.crop region))

end RasterEdit
