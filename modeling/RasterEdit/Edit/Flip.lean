import RasterEdit.Edit.Outcome
import RasterEdit.Request.Flip

/-!
# Flipping

Reverses rows or columns. Pixels are only moved, so every layout can be flipped.
-/

set_option autoImplicit false

namespace RasterEdit

def Grid.flip {α : Type} (direction : Flip) (g : Grid α) : Grid α :=
  match direction with
  | .horizontal => g.flipHorizontal
  | .vertical => g.flipVertical

def Raster.flip (settings : Settings) (direction : Flip) (r : Raster) : Result Outcome :=
  produce settings "transpose" "transpose" r r.size.toPair
    (direction.value ++ " transposed " ++ r.size.shown ++ " image")
    fun _ => .ok (r.rearrange (Grid.flip direction))

end RasterEdit
