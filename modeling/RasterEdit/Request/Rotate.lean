import RasterEdit.Field

/-!
# Rotate requests

A clockwise angle in degrees, any finite number, reduced modulo 360 where it matters.
-/

set_option autoImplicit false

namespace RasterEdit

structure RotateRequest where
  degrees : Real64

namespace RotateRequest

def ofFields (fields : Fields) : Result RotateRequest :=
  Checked.toResult "RotateSpec" <| Checked.andThen
    (RotateRequest.mk <$> Field.withDefault fields "degrees" 0 Field.real)
    fun r =>
      if r.degrees.isFinite then none else some ("degrees must be finite, got " ++ r.degrees.text)

/-- The angle in `[0, 360)`. A tiny negative angle wraps to 360 in rounding and counts as zero. -/
def normalized (r : RotateRequest) : Real64 :=
  let angle := r.degrees.wrap 360
  if Binary.equal angle (Binary.ofInt _ 360) then 0 else angle

def isWholeTurn (r : RotateRequest) : Bool := Binary.equal r.normalized 0

end RotateRequest

end RasterEdit
