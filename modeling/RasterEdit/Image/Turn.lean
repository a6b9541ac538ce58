import RasterEdit.Image.Picture

/-!
# Sampling under an affine map

Each pixel of the canvas looks up its own centre in the source. Points outside the source are
transparent; points inside interpolate the four nearest pixels, which are taken from the edge where
the source ends. Fractions of the interpolated value are dropped.
-/

set_option autoImplicit false

namespace RasterEdit

namespace Turn

/-- Six numbers: the source point is `(a x + b y + c, d x + e y + f)`. -/
structure Sampling where
  a : Real64
  b : Real64
  c : Real64
  d : Real64
  e : Real64
  f : Real64

def Sampling.ofList? : List Real64 → Option Sampling
  | [a, b, c, d, e, f] => some ⟨a, b, c, d, e, f⟩
  | _ => none

def between (v w t : Real64) : Real64 := v + (w - v) * t

/-- Whether a coordinate lies on an axis of `n` pixels. -/
def isInside (x : Real64) (n : Nat) : Bool := !Binary.lt x 0 && Binary.lt x (Real64.ofInt n)

/-- The source value at a point, by interpolation. -/
def sample (g : Grid Rgba) (hw : 0 < g.width) (hh : 0 < g.height) (x y : Real64) : Rgba :=
  let left := x - Real64.half
  let top := y - Real64.half
  let col := (left.floor?).getD 0
  let row := (top.floor?).getD 0
  let dx := left - Real64.ofInt col
  let dy := top - Real64.ofInt row
  let upperLeft := g.clamped row col hw hh
  let upperRight := g.clamped row (col + 1) hw hh
  let lowerInside := 0 ≤ row + 1 ∧ row + 1 < g.height
  let lowerLeft := g.clamped (row + 1) col hw hh
  let lowerRight := g.clamped (row + 1) (col + 1) hw hh
  Vector.ofFn fun k : Fin 4 =>
    let number (p : Rgba) : Real64 := Real64.ofInt (p.get k).toNat
    let upper := between (number upperLeft) (number upperRight) dx
    let lower :=
      if lowerInside then between (number lowerLeft) (number lowerRight) dx else upper
    ((between upper lower dy).truncate?.getD 0).toNat.toUInt8

/-- What the canvas shows where the source ends. -/
def transparent : Rgba := Vector.replicate 4 0

/-- The canvas pixel whose centre lies at the given point of the source. -/
def pixelAt (g : Grid Rgba) (x y : Real64) : Rgba :=
  if h : 0 < g.width ∧ 0 < g.height then
    if isInside x g.width && isInside y g.height then sample g h.1 h.2 x y
    else transparent
  else transparent

def render (s : Sampling) (width height : Nat) (g : Grid Rgba) : Grid Rgba :=
  Grid.ofFn width height fun row col _ _ =>
    let x := Real64.ofInt col + Real64.half
    let y := Real64.ofInt row + Real64.half
    pixelAt g (s.a * x + s.b * y + s.c) (s.d * x + s.e * y + s.f)

def renderStraight (s : Sampling) (width height : Nat) (g : Grid Rgba) : Grid Rgba :=
  (render s width height (g.map Colour.premultiply)).map Colour.unpremultiply

end Turn

end RasterEdit
