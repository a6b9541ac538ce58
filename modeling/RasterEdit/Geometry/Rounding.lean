import RasterEdit.Number

/-!
# Rounding to pixels

Lengths are rounded to the nearest integer, halves away from zero: one half is added to the
magnitude in binary64 and the sum is cut down to an integer.
-/

set_option autoImplicit false

namespace RasterEdit

/-- Nearest integer, halves away from zero. The addition of one half is itself rounded. -/
def roundHalfAway (x : Real64) : Result Int := do
  let magnitude ← integral Binary.floor? (x.abs + Real64.half)
  match x with
  | .signed true _ _ => .ok (-magnitude)
  | _ => .ok magnitude

def Number.roundHalfAway (x : Number) : Result Int := do
  RasterEdit.roundHalfAway (← x.toReal)

end RasterEdit
