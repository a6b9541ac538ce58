import RasterEdit.Edit.Outcome
import RasterEdit.Image.Colour

/-!
# Removing alpha

Composites a raster over black and drops its alpha channel. Rasters without alpha stay as they are.
-/

set_option autoImplicit false

namespace RasterEdit

def Raster.removeAlpha (settings : Settings) (r : Raster) : Result Outcome :=
  match r with
  | .custom .. => .error (.unsupportedLayout .custom "remove_alpha")
  | .alpha order pixels =>
    let target := order.withoutAlpha
    produce settings "alpha" "remove_alpha" r r.size.toPair
      ("converted " ++ r.layout.name ++ " to " ++ (Layout.colour target).name) fun _ =>
        .ok (.colour target (pixels.map fun p =>
          reorder target.ofCanonical (Colour.flatten (reorder order.toCanonical p))))
  | _ => .ok (.unchanged none)

end RasterEdit
