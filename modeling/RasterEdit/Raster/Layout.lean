import RasterEdit.Raster.Pixel
import RasterEdit.Raster.Sample

/-!
# Pixel layouts

A layout says how many channels a pixel has, in which order they are stored, and what kind of
samples they are.
-/

set_option autoImplicit false

namespace RasterEdit

/-- Channel composition and arrangement of a raster. `gray8` holds one byte a pixel, `bitonal` one
truth value where true is white, `custom` anything else. -/
inductive Layout where
  | colour (order : ColourOrder)
  | alpha (order : AlphaOrder)
  | gray8
  | bitonal
  | custom
deriving DecidableEq, Repr

namespace Layout

abbrev rgb : Layout := .colour .rgb
abbrev bgr : Layout := .colour .bgr
abbrev rgba : Layout := .alpha .rgba
abbrev argb : Layout := .alpha .argb
abbrev abgr : Layout := .alpha .abgr

def all : List Layout := [rgb, bgr, rgba, argb, abgr, gray8, bitonal, custom]

def value : Layout → String
  | .colour .rgb => "rgb"
  | .colour .bgr => "bgr"
  | .alpha .rgba => "rgba"
  | .alpha .argb => "argb"
  | .alpha .abgr => "abgr"
  | gray8 => "gray8"
  | bitonal => "bitonal"
  | custom => "custom"

def name : Layout → String
  | .colour .rgb => "RGB"
  | .colour .bgr => "BGR"
  | .alpha .rgba => "RGBA"
  | .alpha .argb => "ARGB"
  | .alpha .abgr => "ABGR"
  | gray8 => "GRAY8"
  | bitonal => "BITONAL"
  | custom => "CUSTOM"

def ofValue? (s : String) : Option Layout := all.find? (·.value == s)

/-- Channel count, free for `custom`. -/
def channels? : Layout → Option Nat
  | .colour _ => some 3
  | .alpha _ => some 4
  | gray8 | bitonal => some 1
  | custom => none

/-- Kind of the samples, free for `custom`. -/
def kind? : Layout → Option SampleKind
  | custom => none
  | bitonal => some .boolean
  | _ => some .uint8

def bytesPerPixel? (l : Layout) : Option Nat :=
  match l.channels?, l.kind? with
  | some channels, some kind => some (channels * kind.bytes)
  | _, _ => none

def hasAlpha : Layout → Bool
  | .alpha _ => true
  | _ => false

/-- Whether the operators can interpret the pixels. -/
def isStandard (l : Layout) : Bool := l ≠ custom

def toCanonical? : Layout → Option (List Nat)
  | .colour order => some (order.toCanonical.toList.map (·.val))
  | .alpha order => some (order.toCanonical.toList.map (·.val))
  | _ => none

def ofCanonical? : Layout → Option (List Nat)
  | .colour order => some (order.ofCanonical.toList.map (·.val))
  | .alpha order => some (order.ofCanonical.toList.map (·.val))
  | _ => none

end Layout

/-- The layout without alpha that a layout collapses to. -/
def Layout.withoutAlpha : Layout → Layout
  | .alpha order => .colour order.withoutAlpha
  | _ => .rgb

end RasterEdit
