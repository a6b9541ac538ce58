import RasterEdit.Raster.Basic

/-!
# Buffers of rasters

The block of a raster always fits the raster's layout, and reading it gives the raster back. Rasters
of one layout with the same block are therefore the same.
-/

set_option autoImplicit false

namespace RasterEdit

theorem Block.patternAt_ofFn {element : Element} {shape : List Nat} {pattern : Nat → Nat} {i : Nat}
    (inRange : i < elementCount shape) :
    (Block.ofFn element shape pattern).patternAt i = pattern i := by
  simp [Block.patternAt, Block.ofFn, inRange]

theorem Grid.channel_lt {width height n row col k : Nat} (hr : row < height) (hc : col < width)
    (hk : k < n) : (row * width + col) * n + k < width * height * n :=
  calc (row * width + col) * n + k < (row * width + col) * n + n := by omega
    _ = (row * width + col + 1) * n := (Nat.succ_mul ..).symm
    _ ≤ width * height * n := Nat.mul_le_mul_right n (Grid.index_lt hr hc)

namespace Raster

section Blocks

variable {α : Type} {n : Nat}

/-- Sample `k` of a pixel stands where row-major order with the channels last puts it. -/
theorem patternAt_blockOf (kind : SampleKind) {stacked : Bool} (pattern : α → Nat)
    (pixels : Grid (Vector α n)) (single : stacked = false → n = 1) {row col k : Nat}
    (hr : row < pixels.height) (hc : col < pixels.width) (hk : k < n) :
    (blockOf kind stacked pattern pixels).patternAt ((row * pixels.width + col) * n + k) =
      pattern (pixels.get row col hr hc)[k] := by
  have inRange : (row * pixels.width + col) * n + k < elementCount
      (if stacked then [pixels.height, pixels.width, n] else [pixels.height, pixels.width]) := by
    have count : elementCount
        (if stacked then [pixels.height, pixels.width, n] else [pixels.height, pixels.width]) =
        pixels.width * pixels.height * n := by
      cases stacked with
      | true => simp [elementCount, Nat.mul_comm, Nat.mul_left_comm]
      | false => simp [elementCount, single rfl, Nat.mul_comm]
    rw [count]
    exact Grid.channel_lt hr hc hk
  have quotient : ((row * pixels.width + col) * n + k) / n = row * pixels.width + col := by
    rw [Nat.mul_comm, Nat.mul_add_div (by omega), Nat.div_eq_of_lt hk, Nat.add_zero]
  have remainder : ((row * pixels.width + col) * n + k) % n = k := by
    rw [Nat.mul_comm, Nat.mul_add_mod, Nat.mod_eq_of_lt hk]
  have stored : row * pixels.width + col < pixels.cells.size := by
    rw [pixels.size_cells]; exact Grid.index_lt hr hc
  rw [blockOf, Block.patternAt_ofFn inRange]
  simp only [quotient, remainder, Array.getElem?_eq_getElem stored, Vector.getElem?_eq_getElem hk]
  rfl

theorem pixelsOf_blockOf (kind : SampleKind) {stacked : Bool} {pattern : α → Nat} {sample : Nat → α}
    (pixels : Grid (Vector α n)) (single : stacked = false → n = 1)
    (reads : ∀ a, sample (pattern a) = a) :
    pixelsOf (blockOf kind stacked pattern pixels) pixels.width pixels.height n sample =
      pixels := by
  refine Grid.ext_get rfl rfl ?_
  intro row col (hr : row < pixels.height) (hc : col < pixels.width)
  refine (Grid.get_ofFn _ row col hr hc).trans (Vector.ext ?_)
  intro k hk
  rw [Vector.getElem_ofFn, patternAt_blockOf kind pattern pixels single hr hc hk, reads]

theorem patternAt_blockOf_cells (kind : SampleKind) (pattern : α → Nat) (pixels : Grid α)
    {row col : Nat} (hr : row < pixels.height) (hc : col < pixels.width) :
    (blockOf kind false pattern (pixels.map (Vector.replicate 1))).patternAt
      (row * pixels.width + col) = pattern (pixels.get row col hr hc) := by
  have stored := @patternAt_blockOf _ _ kind false pattern (pixels.map (Vector.replicate 1))
    (fun _ => rfl) row col 0 hr hc Nat.zero_lt_one
  rwa [Nat.mul_one, Nat.add_zero, Grid.width_map, Grid.get_map, Vector.getElem_replicate] at stored

theorem cellsOf_blockOf (kind : SampleKind) {pattern : α → Nat} {sample : Nat → α}
    (pixels : Grid α) (reads : ∀ a, sample (pattern a) = a) :
    cellsOf (blockOf kind false pattern (pixels.map (Vector.replicate 1)))
      pixels.width pixels.height sample = pixels := by
  refine Grid.ext_get rfl rfl ?_
  intro row col (hr : row < pixels.height) (hc : col < pixels.width)
  refine (Grid.get_ofFn _ row col hr hc).trans ?_
  rw [patternAt_blockOf_cells kind pattern pixels hr hc, reads]

end Blocks

/-- The block of a raster has the elements and the axes of its layout. -/
theorem fault?_toBlock (r : Raster) : r.layout.fault? r.toBlock.element r.toBlock.shape = none := by
  cases r with
  | colour order pixels => rfl
  | alpha order pixels => rfl
  | gray pixels => rfl
  | bitonal pixels => rfl
  | custom kind axis pixels =>
    cases axis with
    | flat => rfl
    | stacked count positive =>
      have nonzero : (ChannelAxis.stacked count positive).channels ≠ 0 := Nat.ne_of_gt positive
      simp [layout, toBlock, blockOf, Block.ofFn, Layout.fault?, Layout.kind?, nonzero]

theorem ofBlock_toBlock (r : Raster) : ofBlock r.layout r.toBlock = .ok r := by
  have fits := r.fault?_toBlock
  simp only [ofBlock, fits]
  cases r with
  | colour order pixels =>
    exact congrArg (fun g => Except.ok (Raster.colour order g))
      (pixelsOf_blockOf .uint8 pixels nofun fun _ => UInt8.ofNat_toNat)
  | alpha order pixels =>
    exact congrArg (fun g => Except.ok (Raster.alpha order g))
      (pixelsOf_blockOf .uint8 pixels nofun fun _ => UInt8.ofNat_toNat)
  | gray pixels =>
    exact congrArg (fun g => Except.ok (Raster.gray g))
      (cellsOf_blockOf .uint8 pixels fun _ => UInt8.ofNat_toNat)
  | bitonal pixels =>
    exact congrArg (fun g => Except.ok (Raster.bitonal g))
      (cellsOf_blockOf .boolean pixels fun b => by cases b <;> rfl)
  | custom kind axis pixels =>
    have reads (a : kind.Sample) : BitVec.ofNat kind.bits a.toNat = a :=
      (BitVec.ofNat_toNat _ a).trans a.setWidth_eq
    cases axis with
    | flat =>
      exact congrArg (fun g => Except.ok (Raster.custom kind .flat g))
        (pixelsOf_blockOf kind pixels (fun _ => rfl) reads)
    | stacked count positive =>
      obtain ⟨count, rfl⟩ : ∃ k, count = k + 1 := ⟨count - 1, by omega⟩
      exact congrArg (fun g => Except.ok (Raster.custom kind (.stacked (count + 1) positive) g))
        (pixelsOf_blockOf kind pixels nofun reads)

theorem eq_of_toBlock {r t : Raster} (layouts : r.layout = t.layout)
    (blocks : r.toBlock = t.toBlock) : r = t := by
  have left := r.ofBlock_toBlock
  rw [layouts, blocks, t.ofBlock_toBlock] at left
  exact (Except.ok.inj left).symm

theorem size_toBlock (r : Raster) :
    r.toBlock.patterns.size = r.width * r.height * r.channels := by
  rw [Block.size_patterns]
  have stacked (h w n : Nat) : elementCount [h, w, n] = w * h * n := by
    simp [elementCount, Nat.mul_comm, Nat.mul_left_comm]
  have flat (h w : Nat) : elementCount [h, w] = w * h * 1 := by
    simp [elementCount, Nat.mul_comm]
  cases r with
  | colour order pixels => exact stacked ..
  | alpha order pixels => exact stacked ..
  | gray pixels => exact flat ..
  | bitonal pixels => exact flat ..
  | custom kind axis pixels =>
    cases axis with
    | flat => exact flat ..
    | stacked count positive => exact stacked ..

/-- The first two axes of a block are the sides of the raster that is read from it. -/
theorem size_of_ofBlock {layout : Layout} {b : Block} {r : Raster}
    (read : ofBlock layout b = .ok r) : r.size = ⟨b.shape.getD 1 0, b.shape.getD 0 0⟩ := by
  unfold ofBlock at read
  split at read
  · cases read
  · cases layout with
    | custom =>
      cases element : b.element with
      | other name => simp only [element] at read; cases read
      | sample kind => simp only [element] at read; cases read; rfl
    | _ => cases read; rfl

theorem shape_toBlock (r : Raster) :
    r.size = ⟨r.toBlock.shape.getD 1 0, r.toBlock.shape.getD 0 0⟩ := by
  cases r with
  | custom kind axis pixels => cases axis <;> rfl
  | _ => rfl

/-! ## Equal numbers -/

theorem element_toBlock (r : Raster) : r.toBlock.element = .sample r.kind := by
  cases r with
  | custom kind axis pixels => cases axis <;> rfl
  | _ => rfl

/-- A raster of a standard layout has no NaN samples, so it has equal numbers to itself. -/
theorem sameNumbers_self {r : Raster} (standard : r.layout.isStandard = true) :
    r.sameNumbers r = true := by
  have reflexive (s : r.kind.Sample) : r.kind.sameNumber s s = true := by
    cases r with
    | custom kind axis pixels => cases standard
    | _ => exact beq_self_eq_true s
  unfold sameNumbers Block.sameNumbers
  simp only [element_toBlock, beq_self_eq_true, Bool.true_and]
  rw [Array.all_eq_true]
  intro i inRange
  simpa using reflexive _

end Raster

end RasterEdit
