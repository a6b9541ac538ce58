import RasterEdit.Image.Picture
import RasterEdit.Number

/-!
# Decoded images

The modes that image decoders produce beside the four picture modes: other colour spaces, palettes,
premultiplied and padded pixels, and wide samples. `DecodedImage.adopt` makes a raster of any of
them; colour spaces and palettes are resolved, unknown samples are kept as they are.
-/

set_option autoImplicit false

namespace RasterEdit

/-- What an image calls transparent: one palette index or gray value, or the alphas of the first
palette entries. -/
inductive Transparency where
  | index (n : Int)
  | alphas (values : List UInt8)

/-- At most 256 colours by index; indices past the end are black. -/
structure Palette where
  entries : Array Rgba
  size_le : entries.size ≤ 256

inductive DecodedImage where
  | picture (p : Picture)
  | grayAlpha (pixels : Grid (Vector UInt8 2))
  | premultipliedGray (pixels : Grid (Vector UInt8 2))
  | premultiplied (pixels : Grid Rgba)
  | padded (pixels : Grid (Vector UInt8 4))
  | cmyk (pixels : Grid (Vector UInt8 4))
  | ycbcr (pixels : Grid (Vector UInt8 3))
  | hsv (pixels : Grid (Vector UInt8 3))
  | indexed (palette : Palette) (pixels : Grid UInt8)
  | indexedAlpha (palette : Palette) (pixels : Grid (Vector UInt8 2))
  | int32 (pixels : Grid (BitVec 32))
  | float32 (pixels : Grid (BitVec 32))
  | wide16 (mostSignificantFirst : Bool) (pixels : Grid (BitVec 16))

namespace Palette

def black : Rgba := #v[0, 0, 0, 255]

def empty : Palette := ⟨#[], Nat.zero_le _⟩

def ofEntries (entries : Array Rgba) : Result Palette :=
  if fits : entries.size ≤ 256 then .ok ⟨entries, fits⟩ else .error .paletteTooLong

def colourAt (p : Palette) (index : UInt8) : Rgba := p.entries.getD index.toNat black

/-- The colour of an index with an alpha of its own. -/
def colourWithAlpha (p : Palette) (pixel : Vector UInt8 2) : Rgba :=
  Colour.withAlpha (Colour.colour (p.colourAt (Pixel.first pixel))) (Pixel.second pixel)

/-- All 256 entries, the missing ones black. -/
def complete (p : Palette) : Palette :=
  ⟨Array.ofFn fun i : Fin 256 => p.entries.getD i black, Nat.le_of_eq Array.size_ofFn⟩

def setAlpha (p : Palette) (index : Nat) (alpha : UInt8) : Palette :=
  ⟨p.entries.modify index fun c => Colour.withAlpha (Colour.colour c) alpha,
    Nat.le_trans (Nat.le_of_eq (Array.size_modify ..)) p.size_le⟩

/-- Makes one entry transparent, or gives the first entries their alphas. -/
def withTransparency (p : Palette) : Option Transparency → Result Palette
  | none => .ok p
  | some (.index n) => do
    let n ← shortWord n
    if 0 ≤ n ∧ n < 256 then return p.complete.setAlpha n.toNat 0 else throw .outsidePalette
  | some (.alphas values) =>
    if values.length ≤ 256 then
      .ok (values.zipIdx.foldl (fun p (alpha, i) => p.setAlpha i alpha) p.complete)
    else .error .outsidePalette

end Palette

namespace Colour

def ofGrayAlpha (p : Vector UInt8 2) : Rgba := withAlpha (ofGray (Pixel.first p)) (Pixel.second p)

/-- Cyan, magenta, yellow and black to red, green and blue. -/
def ofCmyk (p : Vector UInt8 4) : Rgb :=
  let light := (255 : UInt8) - Pixel.fourth p
  (colour p).map fun c => clamp ((light.toNat : Int) - (scaled c light).toNat)

/-- A chroma byte times a factor, in units of 1/64, one half added and the fraction dropped. -/
def chroma (factor : Real64) (v : UInt8) : Int :=
  let centred := Real64.ofInt ((v.toNat : Int) - 128)
  (Binary.truncate? (centred * factor * Real64.ofInt 64 + Real64.half)).getD 0

def ofYcbcr (p : Vector UInt8 3) : Rgb :=
  let y : Int := (Pixel.first p).toNat
  let cb := Pixel.second p
  let cr := Pixel.third p
  let shifted (units : Int) : UInt8 := clamp (y + units >>> (6 : Nat))
  let factor (n : Int) : Real64 := Real64.ofFraction n 100000
  #v[shifted (chroma (factor 140200) cr),
    shifted (chroma (factor (-34414)) cb + chroma (factor (-71414)) cr),
    shifted (chroma (factor 177200) cb)]

def nearest (x : Real64) : Int :=
  (x.parts?.map fun (m, q) =>
    if 0 ≤ q then m <<< q.toNat else (2 * m + (1 <<< (-q).toNat : Nat)) >>> ((-q).toNat + 1)).getD 0

/-- Hue, saturation and value: the hue circle has six sectors, between whose corners one channel
rises or falls. -/
def ofHsv (p : Vector UInt8 3) : Rgb :=
  let v := Pixel.third p
  if Pixel.second p = 0 then ofGray v
  else
    let one : Real64 := 1
    let position := Real64.ofFraction ((Pixel.first p).toNat * 6) 255
    let sector := (position.floor?).getD 0
    let single (x : Real64) : Real64 := (x.toFormat .binary32).toFormat .binary64
    let fraction := single (position - Real64.ofInt sector)
    let saturation := single (Real64.ofFraction (Pixel.second p).toNat 255)
    let value := Real64.ofInt v.toNat
    let low := clamp (nearest (value * (one - saturation)))
    let falling := clamp (nearest (value * (one - saturation * fraction)))
    let rising := clamp (nearest (value * (one - saturation * (one - fraction))))
    match sector.toNat % 6 with
    | 0 => #v[v, rising, low]
    | 1 => #v[falling, v, low]
    | 2 => #v[low, v, rising]
    | 3 => #v[low, falling, v]
    | 4 => #v[rising, low, v]
    | _ => #v[v, low, falling]

end Colour

namespace DecodedImage

def mode : DecodedImage → String
  | picture p => p.mode
  | grayAlpha _ => "LA"
  | premultipliedGray _ => "La"
  | premultiplied _ => "RGBa"
  | padded _ => "RGBX"
  | cmyk _ => "CMYK"
  | ycbcr _ => "YCbCr"
  | hsv _ => "HSV"
  | indexed .. => "P"
  | indexedAlpha .. => "PA"
  | int32 _ => "I"
  | float32 _ => "F"
  | wide16 true _ => "I;16B"
  | wide16 false _ => "I;16"

/-- A single-precision sample cut down to a byte; NaN gives zero. -/
def byteOfFloat (bits : BitVec 32) : UInt8 :=
  match Binary.ofBits .binary32 bits.toNat with
  | .nan => 0
  | x =>
    match x.truncate? with
    | some n => Colour.clamp n
    | none => if Binary.lt x 0 then 0 else 255

def isLight (p : Rgba) : Bool :=
  128000 ≤ 299 * (Pixel.first p).toNat + 587 * (Pixel.second p).toNat
    + 114 * (Pixel.third p).toNat

/-- The image in the mode in which it can be turned into any of the four picture modes. -/
def resolve (target : String) : DecodedImage → Result Picture
  | picture p => .ok p
  | grayAlpha pixels =>
    if target = "L" ∨ target = "1" then .ok (.gray (pixels.map Pixel.first))
    else .ok (.rgba (pixels.map Colour.ofGrayAlpha))
  | premultipliedGray _ => .error (.unsupportedConversion "La" "L")
  | premultiplied pixels => .ok (.rgba (pixels.map Colour.unpremultiply))
  | padded pixels => .ok (.rgb (pixels.map Colour.colour))
  | cmyk pixels => .ok (.rgb (pixels.map Colour.ofCmyk))
  | ycbcr pixels =>
    if target = "L" then .ok (.gray (pixels.map Pixel.first))
    else .ok (.rgb (pixels.map Colour.ofYcbcr))
  | hsv pixels => .ok (.rgb (pixels.map Colour.ofHsv))
  | indexed palette pixels =>
    let colours := pixels.map palette.colourAt
    if target = "1" then .ok (.bitonal (colours.map isLight)) else .ok (.rgba colours)
  | indexedAlpha palette pixels =>
    let colours := pixels.map palette.colourWithAlpha
    if target = "1" then .ok (.bitonal (colours.map isLight)) else .ok (.rgba colours)
  | int32 pixels => .ok (.gray (pixels.map fun s => Colour.clamp s.toInt))
  | float32 pixels => .ok (.gray (pixels.map byteOfFloat))
  | wide16 _ pixels => .ok (.gray (pixels.map fun s => Colour.clamp s.toNat))

def fits16 (pixels : Grid (BitVec 32)) : Bool :=
  pixels.cells.all fun s => 0 ≤ s.toInt && s.toInt ≤ 65535

def flatCells {n : Nat} (kind : SampleKind) (h : kind.bits = n) (pixels : Grid (BitVec n)) :
    Raster :=
  .custom kind .flat (pixels.map fun s => Vector.replicate 1 (s.cast h.symm))

def bytePixels {n : Nat} (positive : 0 < n) (pixels : Grid (Vector UInt8 n)) : Raster :=
  .custom .uint8 (.stacked n positive) (pixels.map fun p => p.map fun c => BitVec.ofNat 8 c.toNat)

/-- The image with alpha, which a picture without alpha has where it shows the transparent value
and an indexed image where its palette has. The transparent value of colours is a shade of red.
Wide samples are cut down to bytes before they are looked at. -/
def withAlpha (image : DecodedImage) (transparency : Option Transparency) : Result Picture :=
  let masked (pixels : Grid Rgb) (key : UInt8 → Rgb) : Result Picture :=
    match transparency with
    | none => .ok (.rgb pixels)
    | some (.alphas _) => .error .alphasWithoutPalette
    | some (.index n) => do
      let transparent := key ((← shortWord n) % 256).toNat.toUInt8
      return .rgba (pixels.map fun p => Colour.withAlpha p (if p = transparent then 0 else 255))
  match image with
  | picture (.rgba pixels) => .ok (.rgba pixels)
  | picture (.rgb pixels) => masked pixels Colour.ofRed
  | picture p => masked p.toRgb Colour.ofGray
  | indexed palette pixels => do
    let palette ← palette.withTransparency transparency
    return .rgba (pixels.map palette.colourAt)
  | wide@(int32 _) | wide@(wide16 false _) => do masked (← wide.resolve "L").toRgb Colour.ofGray
  | other => other.resolve "RGBA"

/-- Takes an image as a raster. Colour spaces and palettes are resolved, to pixels with alpha if
the image has transparency; 32-bit integers that all fit 16 bits are stored as such. -/
def adopt (image : DecodedImage) (transparency : Option Transparency) : Result Raster := do
  let resolved : Result Raster := do
    let p ← image.resolve "RGB"
    return if transparency.isSome then .alpha .rgba p.toRgba else .colour .rgb p.toRgb
  match image with
  | picture p => return Raster.adoptPicture p
  | cmyk _ | ycbcr _ | hsv _ => resolved
  | padded pixels => return .colour .rgb (pixels.map Colour.colour)
  | indexed .. =>
    if transparency.isSome then return .alpha .rgba (← image.withAlpha transparency).toRgba
    else resolved
  | indexedAlpha .. => return .alpha .rgba (← image.resolve "RGBA").toRgba
  | grayAlpha pixels => return bytePixels (by decide) pixels
  | premultipliedGray pixels => return bytePixels (by decide) pixels
  | premultiplied pixels => return bytePixels (by decide) pixels
  | int32 pixels =>
    if fits16 pixels then
      return flatCells .uint16 rfl (pixels.map (BitVec.setWidth 16))
    else return flatCells .int32 rfl pixels
  | float32 pixels => return flatCells .float32 rfl pixels
  | wide16 true pixels => return flatCells .wide16 rfl pixels
  | wide16 false pixels => return flatCells .uint16 rfl pixels

/-- The image as a raster of a layout, converted to the layout's mode. Only layouts with alpha look
at the transparency. -/
def toRaster (layout : Layout) (transparency : Option Transparency) (image : DecodedImage) :
    Result Raster := do
  let target :=
    match layout with
    | .gray8 => "L"
    | .bitonal => "1"
    | _ => "RGB"
  if layout = .custom then throw (.noImageMode layout)
  if layout.hasAlpha then Raster.ofPicture layout (← image.withAlpha transparency)
  else Raster.ofPicture layout (← image.resolve target)

end DecodedImage

end RasterEdit
