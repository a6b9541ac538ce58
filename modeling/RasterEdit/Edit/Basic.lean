import RasterEdit.Edit.Crop
import RasterEdit.Edit.Scale
import RasterEdit.Edit.Rotate
import RasterEdit.Edit.Flip
import RasterEdit.Edit.Tone
import RasterEdit.Edit.Alpha
import RasterEdit.Edit.Normalize

/-!
# Edits

The seven edits as values, and their effect on a raster.
-/

set_option autoImplicit false

namespace RasterEdit

inductive Edit where
  | crop (request : CropRequest) (reduction : Reduction)
  | scale (request : ScaleRequest) (reduction : Reduction) (highQuality : Bool)
  | rotate (request : RotateRequest)
  | flip (direction : Flip)
  | tone (wanted : Tone)
  | removeAlpha
  | normalize

def Edit.apply (settings : Settings) (r : Raster) : Edit → Result Outcome
  | crop request reduction => r.crop settings request reduction
  | scale request reduction highQuality => r.scale settings request reduction highQuality
  | rotate request => r.rotate settings request
  | flip direction => r.flip settings direction
  | tone wanted => r.reduceTones settings wanted
  | removeAlpha => r.removeAlpha settings
  | normalize => r.normalize settings

end RasterEdit
