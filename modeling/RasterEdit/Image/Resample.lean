import RasterEdit.Binary.Angle
import RasterEdit.Image.Picture
import RasterEdit.Number

/-!
# Resizing

Pixels of the result are weighted sums along one axis and then along the other, with weights that
are integers in units of `2 ^ -22`. Both passes give bytes, so their order shows. The better
quality first averages whole blocks and then applies the finer kernel.
-/

set_option autoImplicit false

namespace RasterEdit

namespace Resample

/-- A weight by distance, zero from the support on. -/
structure Kernel where
  support : Nat
  weight : Real64 → Real64

def bilinear : Kernel where
  support := 1
  weight x := if Binary.lt x.abs 1 then 1 - x.abs else 0

def sinc (x : Real64) : Real64 :=
  if x.isZero then 1
  else
    let angle := x * Binary.pi .binary64
    angle.sin / angle

/-- The sine quotient under a window three units wide. -/
def lanczos : Kernel where
  support := 3
  weight x :=
    if Binary.le (Real64.ofInt (-3)) x && Binary.lt x (Real64.ofInt 3) then
      sinc x * sinc (x / Real64.ofInt 3)
    else 0

/-- The weights of one result pixel, for the source pixels from `first` on. -/
structure Taps where
  first : Nat
  weights : Array Int

def truncated (x : Real64) : Int := (x.truncate?).getD 0

/-- A weight in units of `2 ^ -22`, halves away from zero. -/
def fixedWeight (w : Real64) : Int :=
  let scaled := w * Real64.ofInt (1 <<< 22 : Nat)
  if Binary.lt w 0 then truncated (scaled - Real64.half) else truncated (scaled + Real64.half)

/-- Weights of result pixel `i` when the part of an axis of `n` pixels up to `limit` becomes `m`
pixels. A kernel is widened when pixels are lost. -/
def taps (kernel : Kernel) (n m : Nat) (limit : Real64) (i : Nat) : Taps :=
  let scale := limit / Real64.ofInt m
  let widening := if Binary.lt scale 1 then 1 else scale
  let reach := Real64.ofInt kernel.support * widening
  let centre := (Real64.ofInt i + Real64.half) * scale
  let first := (truncated (centre - reach + Real64.half)).toNat
  let past := (min (n : Int) (truncated (centre + reach + Real64.half))).toNat
  let narrowing := 1 / widening
  let raw := (List.range (past - first)).map fun (k : Nat) =>
    kernel.weight ((Real64.ofInt ((k : Int) + first) - centre + Real64.half) * narrowing)
  let total := raw.foldl (· + ·) 0
  ⟨first, (raw.map fun w => fixedWeight (if total.isZero then w else w / total)).toArray⟩

def combine (sample : Nat → Nat) (t : Taps) : UInt8 :=
  let total := t.weights.size.fold
    (fun k h (sum : Int) => sum + sample (t.first + k) * t.weights[k]) (1 <<< 21 : Nat)
  Colour.clamp (total >>> (22 : Nat))

section Passes

variable {n : Nat}

/-- A channel of a pixel, zero outside the grid. -/
def channelAt (g : Grid (Vector UInt8 n)) (row col : Nat) (k : Fin n) : Nat :=
  match g.cells[row * g.width + col]? with
  | some p => (p.get k).toNat
  | none => 0

def across (kernel : Kernel) (width : Nat) (limit : Real64) (g : Grid (Vector UInt8 n)) :
    Grid (Vector UInt8 n) :=
  let columns := Array.ofFn fun i : Fin width => taps kernel g.width width limit i
  Grid.ofFn width g.height fun row col _ hc =>
    have bound : col < columns.size := by simpa [columns] using hc
    let t := columns[col]
    Vector.ofFn fun k => combine (fun source => channelAt g row source k) t

def down (kernel : Kernel) (height : Nat) (limit : Real64) (g : Grid (Vector UInt8 n)) :
    Grid (Vector UInt8 n) :=
  let rows := Array.ofFn fun i : Fin height => taps kernel g.height height limit i
  Grid.ofFn g.width height fun row col hr _ =>
    have bound : row < rows.size := by simpa [rows] using hr
    let t := rows[row]
    Vector.ofFn fun k => combine (fun source => channelAt g source col k) t

def isTrivial (source target : Nat) (limit : Real64) : Bool :=
  source == target && Binary.equal limit (Real64.ofInt target)

/-- Resizes the part of a grid up to the limits. Columns go first if more than twice as many of
them are lost as of the rows. -/
def resize (kernel : Kernel) (width height : Nat) (limits : Real64 × Real64)
    (g : Grid (Vector UInt8 n)) : Grid (Vector UInt8 n) :=
  let horizontal (g : Grid (Vector UInt8 n)) :=
    if isTrivial g.width width limits.1 then g else across kernel width limits.1 g
  let vertical (g : Grid (Vector UInt8 n)) :=
    if isTrivial g.height height limits.2 then g else down kernel height limits.2 g
  let lostRows := (g.height : Int) - height
  let lostColumns := (g.width : Int) - width
  if 0 < lostRows ∧ 2 * lostColumns < lostRows then horizontal (vertical g)
  else vertical (horizontal g)

/-- Reciprocal of a count of pixels in units of `2 ^ -24`, rounded to single precision and cut
down. -/
def reciprocal (count : Nat) : Nat :=
  ((Binary.ofFraction .binary32 (1 <<< 32 : Nat) (256 * count)).truncate?.getD 0).toNat

def average (sum count : Nat) : UInt8 :=
  (((sum + count / 2) * reciprocal count) >>> 24).toUInt8

def blocks (side factor : Nat) : Nat := (side + factor - 1) / factor

/-- Averages blocks of pixels from the top left; the last blocks of an axis may be smaller. -/
def reduce (fx fy : Nat) (g : Grid (Vector UInt8 n)) : Grid (Vector UInt8 n) :=
  Grid.ofFn (blocks g.width fx) (blocks g.height fy) fun row col _ _ =>
    let rows := min fy (g.height - row * fy)
    let columns := min fx (g.width - col * fx)
    Vector.ofFn fun k =>
      let sum := (List.range rows).foldl (fun sum r =>
        (List.range columns).foldl (fun sum c =>
          sum + channelAt g (row * fy + r) (col * fx + c) k) sum) 0
      average sum (rows * columns)

/-- How many pixels of an axis go into one block: as many as leave the target `gap` times over. -/
def reductionFactor (source target : Nat) (gap : Real64) : Nat :=
  max 1 (truncated (Real64.ofFraction source target / gap)).toNat

/-- A side divided by a factor, in single precision. -/
def reducedLimit (side factor : Nat) : Real64 :=
  ((Real64.ofFraction side factor).toFormat .binary32).toFormat .binary64

/-- The top left part of a grid; missing pixels are zero. -/
def topLeft (width height : Nat) (g : Grid (Vector UInt8 n)) : Grid (Vector UInt8 n) :=
  Grid.ofFn width height fun row col _ _ =>
    Vector.ofFn fun k => (channelAt g row col k).toUInt8

/-- Resizes with block averages first. If they hit the target exactly, nothing else is done. -/
def resizeFine (gap : Real64) (width height : Nat) (g : Grid (Vector UInt8 n)) :
    Grid (Vector UInt8 n) :=
  let fx := reductionFactor g.width width gap
  let fy := reductionFactor g.height height gap
  if fx ≤ 1 ∧ fy ≤ 1 then
    resize lanczos width height (Real64.ofInt g.width, Real64.ofInt g.height) g
  else
    let limits := (reducedLimit g.width fx, reducedLimit g.height fy)
    let reduced := reduce fx fy g
    if Binary.equal limits.1 (Real64.ofInt width) ∧ Binary.equal limits.2 (Real64.ofInt height)
    then topLeft width height reduced
    else resize lanczos width height limits reduced

end Passes

/-- Source positions of the result pixels of an axis: steps are added up from half a step. -/
def nearestSteps (step : Real64) : (count : Nat) → Real64 → List Int
  | 0, _ => []
  | count + 1, position => truncated position :: nearestSteps step count (position + step)

/-- Takes the pixel under the middle of each result pixel. -/
def resizeNearest (width height : Nat) (g : Grid Bool) : Grid Bool :=
  let positions (source target : Nat) : Array Int :=
    let step := Real64.ofFraction source target
    (nearestSteps step target (step * Real64.half)).toArray
  let columns := positions g.width width
  let rows := positions g.height height
  Grid.ofFn width height fun row col _ _ =>
    let r := (rows.getD row 0).toNat
    let c := (columns.getD col 0).toNat
    if r < g.height ∧ c < g.width then g.cells.getD (r * g.width + c) false else false

end Resample

namespace Picture

inductive Quality where
  | fast
  | fine (gap : Real64)

def Quality.resize {n : Nat} (quality : Quality) (width height : Nat)
    (g : Grid (Vector UInt8 n)) : Grid (Vector UInt8 n) :=
  match quality with
  | fast =>
    Resample.resize Resample.bilinear width height (Real64.ofInt g.width, Real64.ofInt g.height) g
  | fine gap => Resample.resizeFine gap width height g

/-- Pixels of a resized picture. Colours are weighted by their alpha; black and white stays so. -/
def resampled (quality : Quality) (width height : Nat) : Picture → Picture
  | bitonal pixels => bitonal (Resample.resizeNearest width height pixels)
  | gray pixels =>
    gray ((quality.resize width height (pixels.map (Vector.replicate 1))).map Pixel.first)
  | rgb pixels => rgb (quality.resize width height pixels)
  | rgba pixels =>
    rgba ((quality.resize width height (pixels.map Colour.premultiply)).map Colour.unpremultiply)

/-- The sides of a picture that is to be made have to be words of 32 bits. -/
def checkSides (size : Size) : Result Unit := do
  let _ ← shortWord size.width
  let _ ← shortWord size.height

/-- Resizes a picture to positive sides. -/
def resize (quality : Quality) (size : Size) (p : Picture) : Result Picture := do
  checkSides size
  return p.resampled quality size.width size.height

end Picture

end RasterEdit
