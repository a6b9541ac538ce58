import RasterEdit.Image.Dither
import RasterEdit.Raster.Basic

/-!
# Pictures

The images that the edits work on: canonical channel order, one of four modes. A raster of a
standard layout has a picture, and every picture can be taken into any standard layout by way of
the layout's mode.
-/

set_option autoImplicit false

namespace RasterEdit

inductive Picture where
  | bitonal (pixels : Grid Bool)
  | gray (pixels : Grid UInt8)
  | rgb (pixels : Grid Rgb)
  | rgba (pixels : Grid Rgba)

namespace Picture

def mode : Picture → String
  | bitonal _ => "1"
  | gray _ => "L"
  | rgb _ => "RGB"
  | rgba _ => "RGBA"

def toRgba : Picture → Grid Rgba
  | bitonal pixels => pixels.map fun v => Colour.solid (Colour.ofGray (Colour.ofTruth v))
  | gray pixels => pixels.map fun v => Colour.solid (Colour.ofGray v)
  | rgb pixels => pixels.map Colour.solid
  | rgba pixels => pixels

/-- Alpha is dropped, not composited. -/
def toRgb : Picture → Grid Rgb
  | bitonal pixels => pixels.map fun v => Colour.ofGray (Colour.ofTruth v)
  | gray pixels => pixels.map Colour.ofGray
  | rgb pixels => pixels
  | rgba pixels => pixels.map Colour.colour

def toGray : Picture → Grid UInt8
  | bitonal pixels => pixels.map Colour.ofTruth
  | gray pixels => pixels
  | rgb pixels => pixels.map Colour.luma
  | rgba pixels => pixels.map fun p => Colour.luma (Colour.colour p)

def toBitonal : Picture → Grid Bool
  | bitonal pixels => pixels
  | gray pixels => Dither.grid (fun v => (v.toNat : Int)) pixels
  | rgb pixels => Dither.grid Dither.brightness pixels
  | rgba pixels => Dither.grid Dither.brightness (pixels.map Colour.colour)

end Picture

namespace Raster

/-- The picture of a raster of a standard layout; `operation` is named if there is none. -/
def toPicture (operation : String) : Raster → Result Picture
  | colour order pixels => .ok (.rgb (pixels.map (reorder order.toCanonical)))
  | alpha order pixels => .ok (.rgba (pixels.map (reorder order.toCanonical)))
  | gray pixels => .ok (.gray pixels)
  | bitonal pixels => .ok (.bitonal pixels)
  | custom .. => .error (.unsupportedLayout .custom operation)

/-- A picture as a raster of a layout, converted to the layout's mode first. -/
def ofPicture (layout : Layout) (picture : Picture) : Result Raster :=
  match layout with
  | .colour order => .ok (colour order (picture.toRgb.map (reorder order.ofCanonical)))
  | .alpha order => .ok (alpha order (picture.toRgba.map (reorder order.ofCanonical)))
  | .gray8 => .ok (gray picture.toGray)
  | .bitonal => .ok (bitonal picture.toBitonal)
  | .custom => .error (.noImageMode .custom)

/-- A picture as a raster of the layout of its own mode. -/
def adoptPicture : Picture → Raster
  | .bitonal pixels => bitonal pixels
  | .gray pixels => gray pixels
  | .rgb pixels => colour .rgb pixels
  | .rgba pixels => alpha .rgba pixels

end Raster

end RasterEdit
