import RasterEdit.Edit.Outcome
import RasterEdit.Image.Resample
import RasterEdit.Request.Scale

/-!
# Scaling

Resizes to the requested size and keeps the layout.
-/

set_option autoImplicit false

namespace RasterEdit

def Raster.scale (settings : Settings) (request : ScaleRequest) (reduction : Reduction)
    (highQuality : Bool) (r : Raster) : Result Outcome := do
  let target ← request.target r.size.toPair reduction
  if target = r.size.toPair then
    return .unchanged (some (.idle "scale" (r.size.shown ++ " raster already at target size")))
  if !r.layout.isStandard then throw (.unsupportedLayout r.layout "scale")
  if r.isEmpty then throw (.geometry .emptySource "scale" r.size.toPair)
  let quality : Picture.Quality := if highQuality then .fine settings.reducingGap else .fast
  produce settings "scale" "scale" r target
    ("scaled " ++ r.size.shown ++ s!" image to {target.1}x{target.2}") fun _ => do
      let picture ← r.toPicture "raster_to_image"
      Raster.ofPicture r.layout
        (← picture.resize quality ⟨target.1.toNat, target.2.toNat⟩)

end RasterEdit
