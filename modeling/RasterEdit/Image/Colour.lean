import RasterEdit.Raster.Grid
import RasterEdit.Raster.Pixel

/-!
# Colour arithmetic

Integer formulas on single pixels: gray value of a colour, compositing over black, and the change
between straight and premultiplied alpha. Pixels are in canonical channel order.
-/

set_option autoImplicit false

namespace RasterEdit

namespace Colour

def red (p : Rgb) : UInt8 := Pixel.first p

def green (p : Rgb) : UInt8 := Pixel.second p

def blue (p : Rgb) : UInt8 := Pixel.third p

def alpha (p : Rgba) : UInt8 := Pixel.fourth p

/-- Division by 255 for products of two bytes, given one half too much. -/
def shiftDivide (n : Nat) : Nat := ((n >>> 8) + n) >>> 8

/-- Product of two bytes over 255, rounded. -/
def scaled (a b : UInt8) : UInt8 := (shiftDivide (a.toNat * b.toNat + 128)).toUInt8

def clamp (n : Int) : UInt8 := (min n.toNat 255).toUInt8

/-- Gray value of a colour, in units of 1/65536. -/
def luma (p : Rgb) : UInt8 :=
  ((19595 * (red p).toNat + 38470 * (green p).toNat + 7471 * (blue p).toNat + 32768)
    >>> 16).toUInt8

def ofGray (v : UInt8) : Rgb := #v[v, v, v]

def ofRed (v : UInt8) : Rgb := #v[v, 0, 0]

def ofTruth (white : Bool) : UInt8 := if white then 255 else 0

def withAlpha (p : Rgb) (alpha : UInt8) : Rgba := #v[red p, green p, blue p, alpha]

def solid (p : Rgb) : Rgba := withAlpha p 255

def colour (p : Rgba) : Rgb := #v[Pixel.first p, Pixel.second p, Pixel.third p]

def overBlack (c alpha : UInt8) : UInt8 :=
  if alpha = 0 then 0
  else
    let weight := alpha.toNat * 255 * 255 * 128 / 65025
    (shiftDivide (c.toNat * weight + (128 <<< 7)) >>> 7).toUInt8

/-- A pixel composited over an opaque black ground. -/
def flatten (p : Rgba) : Rgb := (colour p).map (overBlack · (alpha p))

def premultiply (p : Rgba) : Rgba := withAlpha ((colour p).map (scaled · (alpha p))) (alpha p)

/-- One channel of straight colour from a premultiplied one. -/
def divided (c alpha : UInt8) : UInt8 := (min 255 (255 * c.toNat / alpha.toNat)).toUInt8

def unpremultiply (p : Rgba) : Rgba :=
  if alpha p = 0 ∨ alpha p = 255 then p
  else withAlpha ((colour p).map (divided · (alpha p))) (alpha p)

end Colour

end RasterEdit
