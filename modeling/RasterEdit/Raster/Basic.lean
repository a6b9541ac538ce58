import RasterEdit.Raster.Grid
import RasterEdit.Raster.Block
import RasterEdit.Geometry.Region

/-!
# Rasters

A raster is a grid of pixels whose type follows from its layout, so no raster can disagree with its
layout. Blocks of samples are read as rasters by `Raster.ofBlock`, which refuses the others, and
`Raster.toBlock` gives the block back.
-/

set_option autoImplicit false

namespace RasterEdit

/-- Whether the pixels of a custom raster have an axis of their own, and how long it is. -/
inductive ChannelAxis where
  | flat
  | stacked (count : Nat) (count_pos : 0 < count)
deriving DecidableEq

def ChannelAxis.channels : ChannelAxis → Nat
  | flat => 1
  | stacked count _ => count

inductive Raster where
  | colour (order : ColourOrder) (pixels : Grid (Vector UInt8 3))
  | alpha (order : AlphaOrder) (pixels : Grid (Vector UInt8 4))
  | gray (pixels : Grid UInt8)
  | bitonal (pixels : Grid Bool)
  | custom (kind : SampleKind) (axis : ChannelAxis)
      (pixels : Grid (Vector kind.Sample axis.channels))

/-- Says what keeps a block of the given elements and axes from having a layout. -/
def Layout.fault? (layout : Layout) (element : Element) (shape : List Nat) :
    Option LayoutFault :=
  match layout.kind?, layout.channels? with
  | some kind, some channels =>
    if element ≠ .sample kind then some (.kind layout kind element.shownName)
    else if channels = 1 then
      if shape.length = 2 then none else some (.flatShape layout shape)
    else if shape.length = 3 ∧ shape[2]? = some channels then none
    else some (.stackedShape layout channels shape)
  | _, _ =>
    if shape.length ≠ 2 ∧ shape.length ≠ 3 then some (.customRank shape.length)
    else if shape[2]? = some 0 then some .customWithoutChannels
    else
      match element with
      | .sample _ => none
      | .other name => some (.customKind name)

namespace Raster

def layout : Raster → Layout
  | colour order _ => .colour order
  | alpha order _ => .alpha order
  | gray _ => .gray8
  | bitonal _ => .bitonal
  | custom .. => .custom

def size : Raster → Size
  | colour _ pixels => ⟨pixels.width, pixels.height⟩
  | alpha _ pixels => ⟨pixels.width, pixels.height⟩
  | gray pixels => ⟨pixels.width, pixels.height⟩
  | bitonal pixels => ⟨pixels.width, pixels.height⟩
  | custom _ _ pixels => ⟨pixels.width, pixels.height⟩

def width (r : Raster) : Nat := r.size.width

def height (r : Raster) : Nat := r.size.height

def isEmpty (r : Raster) : Bool := r.size.isEmpty

def channels : Raster → Nat
  | colour .. => 3
  | alpha .. => 4
  | gray _ | bitonal _ => 1
  | custom _ axis _ => axis.channels

def kind : Raster → SampleKind
  | bitonal _ => .boolean
  | custom kind _ _ => kind
  | _ => .uint8

/-- Applies a movement of cells, whatever the pixels are. -/
def rearrange (move : {α : Type} → Grid α → Grid α) : Raster → Raster
  | colour order pixels => colour order (move pixels)
  | alpha order pixels => alpha order (move pixels)
  | gray pixels => gray (move pixels)
  | bitonal pixels => bitonal (move pixels)
  | custom kind axis pixels => custom kind axis (move pixels)

@[simp] theorem layout_rearrange (move : {α : Type} → Grid α → Grid α) (r : Raster) :
    (r.rearrange move).layout = r.layout := by
  cases r <;> rfl

@[simp] theorem kind_rearrange (move : {α : Type} → Grid α → Grid α) (r : Raster) :
    (r.rearrange move).kind = r.kind := by
  cases r <;> rfl

@[simp] theorem channels_rearrange (move : {α : Type} → Grid α → Grid α) (r : Raster) :
    (r.rearrange move).channels = r.channels := by
  cases r <;> rfl

/-- The samples of each pixel, stored order, in a block with or without a channel axis. -/
def blockOf {α : Type} {n : Nat} (kind : SampleKind) (stacked : Bool) (pattern : α → Nat)
    (pixels : Grid (Vector α n)) : Block :=
  Block.ofFn (.sample kind)
    (if stacked then [pixels.height, pixels.width, n] else [pixels.height, pixels.width])
    fun i =>
      match pixels.cells[i / n]? with
      | none => 0
      | some pixel =>
        match pixel[i % n]? with
        | none => 0
        | some sample => pattern sample

/-- The samples of the raster as an array of rows. -/
def toBlock : Raster → Block
  | colour _ pixels => blockOf .uint8 true UInt8.toNat pixels
  | alpha _ pixels => blockOf .uint8 true UInt8.toNat pixels
  | gray pixels => blockOf .uint8 false UInt8.toNat (pixels.map (Vector.replicate 1))
  | bitonal pixels => blockOf .boolean false Bool.toNat (pixels.map (Vector.replicate 1))
  | custom kind .flat pixels => blockOf kind false BitVec.toNat pixels
  | custom kind (.stacked _ _) pixels => blockOf kind true BitVec.toNat pixels

/-- The pixels of a block, `n` patterns each. -/
def pixelsOf {α : Type} (b : Block) (width height n : Nat) (sample : Nat → α) :
    Grid (Vector α n) :=
  Grid.ofFn width height fun row col _ _ =>
    Vector.ofFn fun k => sample (b.patternAt ((row * width + col) * n + k))

/-- The same with one pattern a pixel. -/
def cellsOf {α : Type} (b : Block) (width height : Nat) (sample : Nat → α) : Grid α :=
  Grid.ofFn width height fun row col _ _ => sample (b.patternAt (row * width + col))

/-- Reads a block as a raster of a layout. -/
def ofBlock (layout : Layout) (b : Block) : Result Raster :=
  match layout.fault? b.element b.shape with
  | some fault => .error (.layoutMismatch fault)
  | none =>
    let height := b.shape.getD 0 0
    let width := b.shape.getD 1 0
    match layout with
    | .colour order => .ok (colour order (pixelsOf b width height 3 Nat.toUInt8))
    | .alpha order => .ok (alpha order (pixelsOf b width height 4 Nat.toUInt8))
    | .gray8 => .ok (gray (cellsOf b width height Nat.toUInt8))
    | .bitonal => .ok (bitonal (cellsOf b width height (· != 0)))
    | .custom =>
      match b.element with
      | .other name => .error (.layoutMismatch (.customKind name))
      | .sample kind =>
        let axis : ChannelAxis :=
          match b.shape[2]? with
          | some (n + 1) => .stacked (n + 1) (Nat.succ_pos n)
          | _ => .flat
        .ok (custom kind axis (pixelsOf b width height axis.channels (BitVec.ofNat _)))

/-- A raster of zero samples: black, and transparent where there is alpha. -/
def blankOf (layout : Layout) (size : Size) : Option Raster :=
  match layout with
  | .colour order => some (colour order (.replicate size.width size.height (Vector.replicate 3 0)))
  | .alpha order => some (alpha order (.replicate size.width size.height (Vector.replicate 4 0)))
  | .gray8 => some (gray (.replicate size.width size.height 0))
  | .bitonal => some (bitonal (.replicate size.width size.height false))
  | .custom => none

def blank (width height : Int) (layout : Layout) : Result Raster :=
  match blankOf layout ⟨width.toNat, height.toNat⟩ with
  | none => .error .customBlank
  | some r => if width < 0 ∨ height < 0 then .error (.negativeSize width height) else .ok r

/-- Equal layout, axes and numbers; a NaN sample makes rasters differ, even from themselves. -/
def sameNumbers (a b : Raster) : Bool :=
  a.layout == b.layout && a.toBlock.sameNumbers b.toBlock

/-- The samples in canonical channel order. -/
def canonical : Raster → Block
  | colour order pixels => blockOf .uint8 true UInt8.toNat (pixels.map (reorder order.toCanonical))
  | alpha order pixels => blockOf .uint8 true UInt8.toNat (pixels.map (reorder order.toCanonical))
  | other => other.toBlock

/-- Reads a block in canonical channel order as a raster of a layout. The channels are put in the
layout's order before the block is checked, unless that is their order already. A block without
axes counts as one with a single axis. -/
def ofCanonical (layout : Layout) (b : Block) : Result Raster := do
  let ordered ←
    match layout.ofCanonical? with
    | none => pure b
    | some order => if order = List.range order.length then pure b else b.gather order
  let shaped := if ordered.shape = [] then Block.ofFn ordered.element [1] ordered.patternAt
    else ordered
  ofBlock layout shaped

def shown (r : Raster) : String :=
  s!"Raster({r.width}x{r.height}, layout=" ++ r.layout.name ++ ")"

end Raster

end RasterEdit
