import RasterEdit.Geometry.Region
import RasterEdit.Geometry.Reduction
import RasterEdit.Geometry.Rounding

/-!
# Crop requests

A region relative to the full size, in pixels or as fractions. Resolving it against a raster rounds
the coordinates and cuts the region off at the right and bottom edges.
-/

set_option autoImplicit false

namespace RasterEdit

inductive CropUnit where
  | pixels | percent
deriving DecidableEq, Repr

def CropUnit.value : CropUnit → String
  | pixels => "pixels"
  | percent => "percent"

structure CropRequest where
  unit : CropUnit
  x : Real64
  y : Real64
  width : Real64
  height : Real64
  full : Bool

namespace CropRequest

/-- The first coordinate of a fractional region that is above one. -/
def fractionFault? (r : CropRequest) : Option String :=
  if r.unit = .percent then
    [("x", r.x), ("y", r.y), ("width", r.width), ("height", r.height)].findSome? fun (name, v) =>
      if Binary.lt 1 v then
        some ("PERCENT crop " ++ name ++ " must be a fraction <= 1.0, got " ++ v.text)
      else none
  else none

def ofFields (fields : Fields) : Result CropRequest :=
  let coordinate (name : String) : Checked Real64 :=
    Field.withDefault fields name 0 (Field.realAtLeast 0)
  Checked.toResult "CropSpec" <| Checked.andThen
    (CropRequest.mk
      <$> Field.withDefault fields "unit" .pixels
        (Field.choice [CropUnit.pixels, .percent] CropUnit.value)
      <*> coordinate "x" <*> coordinate "y" <*> coordinate "width" <*> coordinate "height"
      <*> Field.withDefault fields "full" false Field.truth)
    fractionFault?

def coversAll (r : CropRequest) : Bool :=
  r.full || (r.unit == .percent && Binary.equal r.x 0 && Binary.equal r.y 0
    && Binary.equal r.width 1 && Binary.equal r.height 1)

/-- Rounded coordinates of the request on a raster: fractions of its own sides, or pixels scaled by
the reduction. -/
def coordinates (r : CropRequest) (size : Int × Int) (reduction : Reduction) :
    Result (Int × Int × Int × Int) := do
  match r.unit with
  | .percent =>
    let along (v : Real64) (side : Int) : Result Int := do roundHalfAway (v * (← realOfInt side))
    return (← along r.x size.1, ← along r.y size.2, ← along r.width size.1,
      ← along r.height size.2)
  | .pixels =>
    let scale ← reduction.scale
    return (← roundHalfAway (r.x * scale), ← roundHalfAway (r.y * scale),
      ← roundHalfAway (r.width * scale), ← roundHalfAway (r.height * scale))

/-- An extent cut off at the far edge. -/
def clipped (side start extent : Int) : Int :=
  if side < start + extent then side - start else extent

/-- The region of a raster of the given size that the request means. -/
def region (r : CropRequest) (size : Int × Int) (reduction : Reduction) : Result Region := do
  if r.full then Region.ofInts 0 0 size.1 size.2
  else
    let (x, y, width, height) ← r.coordinates size reduction
    let croppedWidth := clipped size.1 x width
    let croppedHeight := clipped size.2 y height
    if croppedWidth < 0 ∨ croppedHeight < 0 then
      throw (.geometry (.originOutside x y size.1 size.2) "crop"
        (croppedWidth, croppedHeight))
    Region.ofInts x y croppedWidth croppedHeight

def outputSize (r : CropRequest) (size : Int × Int) (reduction : Reduction) : Result Size :=
  (r.region size reduction).map Region.size

end CropRequest

end RasterEdit
