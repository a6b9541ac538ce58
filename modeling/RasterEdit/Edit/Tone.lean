import RasterEdit.Edit.Outcome
import RasterEdit.Image.Picture
import RasterEdit.Request.Tone

/-!
# Reducing tones

Turns a raster into gray values, or into black and white at the threshold of the settings. Alpha is
composited over black first.
-/

set_option autoImplicit false

namespace RasterEdit

/-- Gray values of a picture, alpha composited over black. -/
def Picture.grayOverBlack : Picture → Grid UInt8
  | rgba pixels => pixels.map fun p => Colour.luma (Colour.flatten p)
  | other => other.toGray

def Raster.reduceTones (settings : Settings) (tone : Tone) (r : Raster) : Result Outcome := do
  if tone = .unchanged then return .unchanged none
  if !r.layout.isStandard then throw (.unsupportedLayout r.layout "filter")
  produce settings "filters" "filter" r r.size.toPair
    (tone.value ++ " filtered " ++ r.size.shown ++ " image") fun _ => do
      let luma := (← r.toPicture "raster_to_image").grayOverBlack
      match tone with
      | .bitonal => return .bitonal (luma.map fun v => settings.bitonalThreshold ≤ v.toNat)
      | _ => return .gray luma

end RasterEdit
