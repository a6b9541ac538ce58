import RasterEdit.Binary.Notation
import RasterEdit.Edit.Outcome
import RasterEdit.Geometry.Rotation
import RasterEdit.Image.Turn
import RasterEdit.Request.Rotate

/-!
# Rotating

Turns a raster about its centre onto the smallest canvas that holds it. The corners that become
free are transparent, so the result has alpha.
-/

set_option autoImplicit false

namespace RasterEdit

/-- The points of the source that the pixels of a canvas are sampled at. -/
def Turn.samplingOnto (source canvas : Int × Int) (radians : Real64) : Result Turn.Sampling := do
  let forward ← Rotation.forwardMatrix (.whole source.1, .whole source.2)
    (.whole canvas.1, .whole canvas.2) (.real radians)
  match Rotation.sampling forward with
  | .error fault => throw (.matrix fault)
  | .ok coefficients =>
    match Turn.Sampling.ofList? coefficients with
    | some s => return s
    | none => throw (.matrix .notSquare)

def Raster.rotate (settings : Settings) (request : RotateRequest) (r : Raster) :
    Result Outcome := do
  let degrees := request.degrees.fixed 1
  if request.isWholeTurn then
    return .unchanged (some (.idle "rotate" ("no-op rotation of " ++ degrees ++ " degrees")))
  if !r.layout.isStandard then throw (.unsupportedLayout r.layout "rotate")
  let source := r.size.toPair
  let canvas ← Rotation.canvasSize (.whole source.1) (.whole source.2) (.real request.degrees)
  produce settings "rotate" "rotate" r canvas
    ("rotated " ++ r.size.shown ++ " image by " ++ degrees
      ++ s!" degrees onto {canvas.1}x{canvas.2} canvas") fun _ => do
      if r.isEmpty || canvas.1 == 0 || canvas.2 == 0 then
        Raster.blank canvas.1 canvas.2 .rgba
      else
        let sampling ← Turn.samplingOnto source canvas request.degrees.radians
        let picture ← r.toPicture "raster_to_image"
        return .alpha .rgba
          (Turn.renderStraight sampling canvas.1.toNat canvas.2.toNat picture.toRgba)

end RasterEdit
