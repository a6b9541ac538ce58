/-!
# Tone requests

Which tones of a raster remain: all of them, gray values, or black and white.
-/

set_option autoImplicit false

namespace RasterEdit

inductive Tone where
  | unchanged | gray | bitonal
deriving DecidableEq, Repr

namespace Tone

def all : List Tone := [unchanged, gray, bitonal]

def value : Tone → String
  | unchanged => "none"
  | gray => "gray"
  | bitonal => "bitonal"

def name : Tone → String
  | unchanged => "NONE"
  | gray => "GRAY"
  | bitonal => "BITONAL"

def ofValue? (s : String) : Option Tone := all.find? (·.value == s)

end Tone

end RasterEdit
