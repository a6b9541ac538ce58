import RasterEdit.Proofs.Raster.Buffer
import RasterEdit.Proofs.Raster.Movement

/-!
# Samples by position

The stored patterns of a raster by row, column and channel. A movement of cells takes every channel
of a pixel along, so samples only change places, whatever the layout and the number of channels are.
-/

set_option autoImplicit false

namespace RasterEdit

/-- A movement that fills the cell at a position from the cell that `rowOf` and `colOf` name, on
grids of the given size. -/
def Grid.Draws (move : {α : Type} → Grid α → Grid α) (size : Size) (rowOf colOf : Nat → Nat) :
    Prop :=
  ∀ {α : Type} (g : Grid α), g.width = size.width → g.height = size.height →
    ∀ {row col : Nat} (hr : row < (move g).height) (hc : col < (move g).width),
      ∃ (hr' : rowOf row < g.height) (hc' : colOf col < g.width),
        (move g).get row col hr hc = g.get (rowOf row) (colOf col) hr' hc'

/-- A movement that gives grids of one size the sides of another. -/
def Grid.Resizes (move : {α : Type} → Grid α → Grid α) (size size' : Size) : Prop :=
  ∀ {α : Type} (g : Grid α), g.width = size.width → g.height = size.height →
    (move g).width = size'.width ∧ (move g).height = size'.height

section Movements

variable {move move' : {α : Type} → Grid α → Grid α} {size size' last : Size}
  {rowOf colOf rowOf' colOf' : Nat → Nat}

theorem Grid.Resizes.comp (first : Grid.Resizes move size size')
    (second : Grid.Resizes move' size' last) :
    Grid.Resizes (fun g => move' (move g)) size last := by
  intro α g width_eq height_eq
  obtain ⟨width, height⟩ := first g width_eq height_eq
  exact second (move g) width height

/-- Of two movements, the second names cells that the first has drawn. -/
theorem Grid.Draws.comp (first : Grid.Draws move size rowOf colOf)
    (sides : Grid.Resizes move size size') (second : Grid.Draws move' size' rowOf' colOf') :
    Grid.Draws (fun g => move' (move g)) size (rowOf ∘ rowOf') (colOf ∘ colOf') := by
  intro α g width_eq height_eq row col hr hc
  obtain ⟨width_eq', height_eq'⟩ := sides g width_eq height_eq
  obtain ⟨rowIn, colIn, outer⟩ := second (move g) width_eq' height_eq' hr hc
  obtain ⟨rowIn', colIn', inner⟩ := first g width_eq height_eq rowIn colIn
  exact ⟨rowIn', colIn', outer.trans inner⟩

/-- Movements to one size that draw the same cells have the same result. -/
theorem Grid.eq_of_draws (left : Grid.Draws move size rowOf colOf)
    (right : Grid.Draws move' size rowOf' colOf') (sides : Grid.Resizes move size size')
    (sides' : Grid.Resizes move' size size')
    (same : ∀ row col, row < size'.height → col < size'.width →
      rowOf row = rowOf' row ∧ colOf col = colOf' col)
    {α : Type} {g : Grid α} (width_eq : g.width = size.width)
    (height_eq : g.height = size.height) : move g = move' g := by
  obtain ⟨width, height⟩ := sides g width_eq height_eq
  obtain ⟨width', height'⟩ := sides' g width_eq height_eq
  refine Grid.ext_get (width.trans width'.symm) (height.trans height'.symm) ?_
  intro row col hr hc
  obtain ⟨rowIn, colIn, drawn⟩ := left g width_eq height_eq hr hc
  obtain ⟨rowIn', colIn', drawn'⟩ := right g width_eq height_eq
    (hr.trans_eq (height.trans height'.symm)) (hc.trans_eq (width.trans width'.symm))
  obtain ⟨row_eq, col_eq⟩ := same row col (hr.trans_eq height) (hc.trans_eq width)
  exact drawn.trans ((g.get_congr row_eq col_eq ..).trans drawn'.symm)

end Movements

theorem Grid.resizes_crop {region : Region} {size : Size} (within : region.isWithin size = true) :
    Grid.Resizes (Grid.crop region) size region.size :=
  fun _ width_eq height_eq => Grid.sides_crop width_eq height_eq within

theorem Grid.draws_crop {region : Region} {size : Size} (within : region.isWithin size = true) :
    Grid.Draws (Grid.crop region) size (region.y + ·) (region.x + ·) := by
  intro α g width_eq height_eq row col hr hc
  obtain ⟨across, down⟩ := Region.isWithin_iff.mp within
  have left : min region.x g.width = region.x := by omega
  have top : min region.y g.height = region.y := by omega
  have fitsAcross : min region.x g.width + min region.width (g.width - min region.x g.width) ≤
      g.width := by omega
  have fitsDown : min region.y g.height + min region.height (g.height - min region.y g.height) ≤
      g.height := by omega
  have hr' : row < min region.height (g.height - min region.y g.height) := hr
  have hc' : col < min region.width (g.width - min region.x g.width) := hc
  have rowIn : region.y + row < g.height := by omega
  have colIn : region.x + col < g.width := by omega
  refine ⟨rowIn, colIn, (Grid.get_window g _ _ _ _ fitsAcross fitsDown row col hr' hc').trans ?_⟩
  exact g.get_congr (by rw [top]) (by rw [left]) ..

namespace Raster

/-- The stored pattern of a channel of a pixel: the entry of the raster's block at that row, column
and channel. -/
def sampleAt (r : Raster) (row col channel : Nat) : Nat :=
  r.toBlock.patternAt ((row * r.width + col) * r.channels + channel)

theorem sampleAt_colour {order : ColourOrder} {pixels : Grid (Vector UInt8 3)}
    {row col channel : Nat} (hr : row < pixels.height) (hc : col < pixels.width)
    (hk : channel < 3) : (colour order pixels).sampleAt row col channel =
      (pixels.get row col hr hc)[channel].toNat :=
  @patternAt_blockOf _ _ .uint8 true UInt8.toNat pixels nofun row col channel hr hc hk

theorem sampleAt_alpha {order : AlphaOrder} {pixels : Grid (Vector UInt8 4)}
    {row col channel : Nat} (hr : row < pixels.height) (hc : col < pixels.width)
    (hk : channel < 4) : (alpha order pixels).sampleAt row col channel =
      (pixels.get row col hr hc)[channel].toNat :=
  @patternAt_blockOf _ _ .uint8 true UInt8.toNat pixels nofun row col channel hr hc hk

theorem sampleAt_gray {pixels : Grid UInt8} {row col : Nat} (hr : row < pixels.height)
    (hc : col < pixels.width) :
    (gray pixels).sampleAt row col 0 = (pixels.get row col hr hc).toNat := by
  have stored := patternAt_blockOf_cells .uint8 UInt8.toNat pixels hr hc
  rwa [← Nat.mul_one (row * pixels.width + col)] at stored

theorem sampleAt_bitonal {pixels : Grid Bool} {row col : Nat} (hr : row < pixels.height)
    (hc : col < pixels.width) :
    (bitonal pixels).sampleAt row col 0 = (pixels.get row col hr hc).toNat := by
  have stored := patternAt_blockOf_cells .boolean Bool.toNat pixels hr hc
  rwa [← Nat.mul_one (row * pixels.width + col)] at stored

theorem sampleAt_custom {kind : SampleKind} {axis : ChannelAxis}
    {pixels : Grid (Vector kind.Sample axis.channels)} {row col channel : Nat}
    (hr : row < pixels.height) (hc : col < pixels.width) (hk : channel < axis.channels) :
    (custom kind axis pixels).sampleAt row col channel =
      (pixels.get row col hr hc)[channel].toNat := by
  cases axis with
  | flat =>
    exact @patternAt_blockOf _ _ kind false BitVec.toNat pixels (fun _ => rfl) row col channel hr
      hc hk
  | stacked count positive =>
    exact @patternAt_blockOf _ _ kind true BitVec.toNat pixels nofun row col channel hr hc hk

private theorem patternAt_drawn {α : Type} {n : Nat} (kind : SampleKind) (stacked : Bool)
    (pattern : α → Nat) (single : stacked = false → n = 1) {moved pixels : Grid (Vector α n)}
    {row col row' col' channel : Nat} (hr : row < moved.height) (hc : col < moved.width)
    (hr' : row' < pixels.height) (hc' : col' < pixels.width) (hk : channel < n)
    (drawn : moved.get row col hr hc = pixels.get row' col' hr' hc') :
    (blockOf kind stacked pattern moved).patternAt ((row * moved.width + col) * n + channel) =
      (blockOf kind stacked pattern pixels).patternAt
        ((row' * pixels.width + col') * n + channel) := by
  rw [patternAt_blockOf kind pattern moved single hr hc hk, drawn,
    patternAt_blockOf kind pattern pixels single hr' hc' hk]

theorem sampleAt_rearrange {move : {α : Type} → Grid α → Grid α} {r : Raster}
    {rowOf colOf : Nat → Nat} (draws : Grid.Draws move r.size rowOf colOf) {row col channel : Nat}
    (hr : row < (r.rearrange move).height) (hc : col < (r.rearrange move).width)
    (hk : channel < r.channels) :
    (r.rearrange move).sampleAt row col channel = r.sampleAt (rowOf row) (colOf col) channel := by
  cases r with
  | colour order pixels =>
    obtain ⟨hr', hc', drawn⟩ := draws pixels rfl rfl hr hc
    exact patternAt_drawn .uint8 true UInt8.toNat nofun hr hc hr' hc' hk drawn
  | alpha order pixels =>
    obtain ⟨hr', hc', drawn⟩ := draws pixels rfl rfl hr hc
    exact patternAt_drawn .uint8 true UInt8.toNat nofun hr hc hr' hc' hk drawn
  | gray pixels =>
    obtain ⟨hr', hc', drawn⟩ := draws pixels rfl rfl hr hc
    obtain rfl := Nat.lt_one_iff.mp hk
    exact (sampleAt_gray hr hc).trans
      ((congrArg UInt8.toNat drawn).trans (sampleAt_gray hr' hc').symm)
  | bitonal pixels =>
    obtain ⟨hr', hc', drawn⟩ := draws pixels rfl rfl hr hc
    obtain rfl := Nat.lt_one_iff.mp hk
    exact (sampleAt_bitonal hr hc).trans
      ((congrArg Bool.toNat drawn).trans (sampleAt_bitonal hr' hc').symm)
  | custom kind axis pixels =>
    obtain ⟨hr', hc', drawn⟩ := draws pixels rfl rfl hr hc
    cases axis with
    | flat => exact patternAt_drawn kind false BitVec.toNat (fun _ => rfl) hr hc hr' hc' hk drawn
    | stacked count positive =>
      exact patternAt_drawn kind true BitVec.toNat nofun hr hc hr' hc' hk drawn

end Raster

end RasterEdit
