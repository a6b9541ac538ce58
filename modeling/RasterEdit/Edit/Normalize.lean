import RasterEdit.Edit.Outcome
import RasterEdit.Image.Colour
import RasterEdit.Raster.Depth

/-!
# Normalizing custom rasters

Reads the samples of a custom raster as colours: one channel is gray, two are gray and alpha, three
are colour, four or more are colour and alpha. Samples are rescaled to bytes and alpha is composited
over black. Rasters of every other layout stay as they are.
-/

set_option autoImplicit false

namespace RasterEdit

namespace Colour

/-- The colour that the bytes of a custom pixel stand for. -/
def ofChannels {n : Nat} (p : Vector UInt8 n) : Rgb :=
  match p.toList with
  | [gray] => ofGray gray
  | [gray, alpha] => flatten (withAlpha (ofGray gray) alpha)
  | [red, green, blue] => #v[red, green, blue]
  | red :: green :: blue :: alpha :: _ => flatten #v[red, green, blue, alpha]
  | [] => ofGray 0

end Colour

def Raster.normalize (settings : Settings) (r : Raster) : Result Outcome :=
  match r with
  | .custom kind axis pixels =>
    produce settings "normalize" "convert_custom_to_rgb" r r.size.toPair
      ("converted " ++ kind.shownName ++ s!" raster with {axis.channels} channel(s)") fun _ =>
        .ok (.colour .rgb (pixels.map fun p => Colour.ofChannels (p.map (Depth.byte kind))))
  | _ => .ok (.unchanged none)

end RasterEdit
