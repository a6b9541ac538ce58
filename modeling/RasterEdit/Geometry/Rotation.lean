import RasterEdit.Binary.Angle
import RasterEdit.Geometry.Matrix
import RasterEdit.Geometry.Rounding

/-!
# Rotation onto a canvas

Pixel `(i, j)` covers the unit square at `(i, j)` and `y` grows downward, so a positive angle turns
clockwise. The canvas of a rotated rectangle has the rectangle's extents along the turned axes; the
forward matrix takes the centre of the source to the centre of the canvas.
-/

set_option autoImplicit false

namespace RasterEdit

namespace Rotation

section Generic

variable {α : Type} [Scalar α]

/-- Extents of a turned rectangle, from the cosine and sine of the angle. -/
def extents (width height cosine sine : α) : α × α :=
  let c := Scalar.magnitude cosine
  let s := Scalar.magnitude sine
  (width * c + height * s, height * c + width * s)

def shift (dx dy : α) : Matrix α := [[1, 0, dx], [0, 1, dy], [0, 0, 1]]

def turn (cosine sine : α) : Matrix α := [[cosine, -sine, 0], [sine, cosine, 0], [0, 0, 1]]

/-- Source centre to origin, turn, origin to canvas centre; the arguments are the centres. -/
def forward (source canvas : α × α) (cosine sine : α) : Matrix α :=
  ((shift canvas.1 canvas.2).mul (turn cosine sine)).mul
    (shift (-source.1) (-source.2))

/-- First two rows of the inverse: where in the source a canvas point is sampled. -/
def sampling (m : Matrix α) : Except MatrixFault (List α) :=
  (m.inverse).map fun inverse => (inverse.take 2).flatten

end Generic

/-- An angle in degrees brought into `[0, 360]`; integers stay exact. -/
def wrapped : Number → Result Real64
  | .real x => .ok (x.wrap 360)
  | x =>
    match x.integer? with
    | some n => realOfInt (n % 360)
    | none => .ok 0

/-- Size of the canvas that holds a rectangle turned by the given degrees. -/
def canvasSize (width height degrees : Number) : Result (Int × Int) := do
  let (sine, cosine) := (← wrapped degrees).radians.sinCos
  let w ← width.toReal
  let h ← height.toReal
  let (canvasWidth, canvasHeight) := extents w h cosine sine
  return (← roundHalfAway canvasWidth, ← roundHalfAway canvasHeight)

def halved : Number → Result Real64
  | .real x => .ok (x / Real64.ofInt 2)
  | x =>
    match x.integer? with
    | some n => realOfFraction n 2
    | none => .ok 0

/-- The two items of a pair given as a list. -/
def pair : List Number → Result (Number × Number)
  | [a, b] => .ok (a, b)
  | items => .error (if 2 < items.length then .tooManyItems else .tooFewItems items.length)

/-- Forward matrix of a turn by an angle in radians. -/
def forwardMatrix (source canvas : Number × Number) (radians : Number) :
    Result (Matrix Real64) := do
  let angle ← radians.toReal
  if !angle.isFinite && !angle.isNaN then throw .undefinedAngle
  let (sine, cosine) := angle.sinCos
  let canvasCentre := (← halved canvas.1, ← halved canvas.2)
  let sourceCentre := (← halved source.1, ← halved source.2)
  return forward sourceCentre canvasCentre cosine sine

end Rotation

end RasterEdit
