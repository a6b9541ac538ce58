import RasterEdit.Proofs.Edit.Flattened
import RasterEdit.Proofs.Raster.Depth
import RasterEdit.Proofs.Raster.Twin

/-!
# Normalized rasters

What normalizing makes of a custom raster follows from the number of its channels: one is gray, two
are gray and alpha, three are colour, four or more are colour and alpha. Alpha is composited over
black as it is when alpha is removed.
-/

set_option autoImplicit false

namespace RasterEdit

/-! ## Pixels -/

namespace Colour

theorem ofChannels_one : (p : Vector UInt8 1) → ofChannels p = ofGray p[0]
  | ⟨⟨[_]⟩, _⟩ => rfl

theorem ofChannels_two :
    (p : Vector UInt8 2) → ofChannels p = flatten (withAlpha (ofGray p[0]) p[1])
  | ⟨⟨[_, _]⟩, _⟩ => rfl

theorem ofChannels_three : (p : Vector UInt8 3) → ofChannels p = p
  | ⟨⟨[_, _, _]⟩, _⟩ => rfl

theorem ofChannels_four : (p : Rgba) → ofChannels p = flatten p
  | ⟨⟨[_, _, _, _]⟩, _⟩ => rfl

theorem ofChannels_more {n : Nat} :
    (p : Vector UInt8 (n + 4)) → ofChannels p = flatten #v[p[0], p[1], p[2], p[3]]
  | ⟨⟨_ :: _ :: _ :: _ :: _⟩, _⟩ => rfl

/-- What the bytes of a pixel show, by the number of channels. -/
inductive FromChannels (count : Nat) (byte : Nat → Nat) (seen : Channel → Nat) : Prop where
  | gray (count_eq : count = 1) (same : ∀ c, c ≠ .alpha → seen c = byte 0)
  | grayAlpha (count_eq : count = 2)
      (nearest : ∀ c, c ≠ .alpha → |(seen c : ℚ) - byte 0 * byte 1 / 255| < 1 / 2)
  | colour (count_eq : count = 3) (same : ∀ c, c ≠ .alpha → seen c = byte c.place)
  | colourAlpha (count_le : 4 ≤ count)
      (nearest : ∀ c, c ≠ .alpha → |(seen c : ℚ) - byte c.place * byte 3 / 255| < 1 / 2)

theorem fromChannels_ofChannels {count : Nat} (positive : 0 < count) (p : Vector UInt8 count)
    {byte : Nat → Nat} {seen : Channel → Nat}
    (read : ∀ k (inside : k < count), byte k = p[k].toNat)
    (shown : ∀ c, c ≠ .alpha → seen c = (channel (ofChannels p) c).toNat) :
    FromChannels count byte seen := by
  match count, p with
  | 1, p =>
    refine .gray rfl fun c coloured => ?_
    rw [shown c coloured, ofChannels_one, read 0 (by decide)]
    cases c with
    | alpha => exact absurd rfl coloured
    | _ => rfl
  | 2, p =>
    refine .grayAlpha rfl fun c coloured => ?_
    rw [shown c coloured, ofChannels_two, channel_flatten coloured, read 0 (by decide),
      read 1 (by decide)]
    cases c with
    | alpha => exact absurd rfl coloured
    | _ => exact overBlack_nearest ..
  | 3, p =>
    refine .colour rfl fun c coloured => ?_
    have inside := Channel.place_lt_of_ne coloured
    rw [shown c coloured, ofChannels_three, channel_of_lt inside, read c.place inside]
  | more + 4, p =>
    -- Only the bytes at 0 to 3 are read, so further channels make no difference.
    refine .colourAlpha (Nat.le_add_left 4 more) fun c coloured => ?_
    rw [shown c coloured, ofChannels_more, channel_flatten coloured,
      read c.place (c.place_lt.trans_le (Nat.le_add_left 4 more)), read 3 (by omega)]
    cases c <;> exact overBlack_nearest ..

end Colour

/-! ## Samples -/

theorem Block.patternAt_rescaled {b : Block} {kind : SampleKind}
    (element : b.element = .sample kind) {i : Nat} (inRange : i < b.patterns.size) :
    b.rescaled.patternAt i = (Depth.byte kind (BitVec.ofNat _ (b.patternAt i))).toNat := by
  rw [rescaled, patternAt_ofFn (b.size_patterns ▸ inRange)]
  simp only [element]

namespace Raster

/-- The byte that a sample is rescaled to, found as `Raster.sampleAt` finds the sample. -/
def byteAt (r : Raster) (row col channel : Nat) : Nat :=
  r.toBlock.rescaled.patternAt ((row * r.width + col) * r.channels + channel)

theorem byteAt_eq {r : Raster} {row col channel : Nat} (hr : row < r.height) (hc : col < r.width)
    (hk : channel < r.channels) : r.byteAt row col channel =
      (Depth.byte r.kind (BitVec.ofNat _ (r.sampleAt row col channel))).toNat := by
  apply Block.patternAt_rescaled r.element_toBlock
  rw [size_toBlock]
  exact Grid.channel_lt hr hc hk

theorem byteAt_custom {kind : SampleKind} {axis : ChannelAxis}
    {pixels : Grid (Vector kind.Sample axis.channels)} {row col channel : Nat}
    (hr : row < pixels.height) (hc : col < pixels.width) (hk : channel < axis.channels) :
    (custom kind axis pixels).byteAt row col channel =
      (Depth.byte kind (pixels.get row col hr hc)[channel]).toNat := by
  have reads (s : kind.Sample) : BitVec.ofNat kind.bits s.toNat = s :=
    (BitVec.ofNat_toNat _ s).trans s.setWidth_eq
  refine (byteAt_eq (r := custom kind axis pixels) hr hc hk).trans ?_
  rw [sampleAt_custom hr hc hk]
  exact congrArg (fun s => (Depth.byte kind s).toNat) (reads _)

section Custom

variable {kind : SampleKind} {axis : ChannelAxis}

theorem fromChannels_normalized (pixels : Grid (Vector kind.Sample axis.channels)) {row col : Nat}
    (hr : row < pixels.height) (hc : col < pixels.width) :
    Colour.FromChannels axis.channels ((custom kind axis pixels).byteAt row col)
      ((Raster.colour .rgb (normalized pixels)).channelAt row col) := by
  have positive : 0 < axis.channels := by
    cases axis with
    | flat => exact Nat.one_pos
    | stacked count count_pos => exact count_pos
  apply Colour.fromChannels_ofChannels positive ((pixels.get row col hr hc).map (Depth.byte kind))
  · intro k inside
    rw [byteAt_custom hr hc inside, Vector.getElem_map]
  · intro c coloured
    rw [channelAt_colour coloured hr hc, reorder_rgb, get_normalized]

end Custom

/-! ## Bytes with alpha -/

section Bytes

variable {b : Block} {height width : Nat} (element : b.element = .sample .uint8)
  (shape : b.shape = [height, width, 4])

include element shape

theorem ofBlock_custom_bytes : ofBlock .custom b =
    .ok (custom .uint8 (.stacked 4 (by decide)) (pixelsOf b width height 4 (BitVec.ofNat 8))) := by
  obtain ⟨_, _, patterns, size_patterns⟩ := b
  cases element
  cases shape
  rfl

theorem ofBlock_alpha_bytes (order : AlphaOrder) : ofBlock (.alpha order) b =
    .ok (alpha order (pixelsOf b width height 4 Nat.toUInt8)) := by
  obtain ⟨_, _, patterns, size_patterns⟩ := b
  cases element
  cases shape
  cases order <;> rfl

end Bytes

theorem map_pixelsOf {α β : Type} (b : Block) (width height n : Nat) (sample : Nat → α)
    (f : α → β) : (pixelsOf b width height n sample).map (Vector.map f) =
      pixelsOf b width height n fun pattern => f (sample pattern) := by
  refine Grid.ext_get rfl rfl ?_
  intro row col (hr : row < height) (hc : col < width)
  have read {γ : Type} (sample : Nat → γ) :
      (pixelsOf b width height n sample).get row col hr hc =
        Vector.ofFn fun k => sample (b.patternAt ((row * width + col) * n + k)) := Grid.get_ofFn ..
  refine (Grid.get_map ..).trans ?_
  rw [read, Vector.map_ofFn]
  exact (read fun pattern => f (sample pattern)).symm

theorem byte_uint8 (n : Nat) : Depth.byte .uint8 (BitVec.ofNat 8 n) = n.toUInt8 := by
  apply UInt8.toNat_inj.mp
  have value : Depth.value? .uint8 (BitVec.ofNat 8 n) = some ((n % 256 : Nat) : Int) := rfl
  rw [Depth.toNat_byte value (Nat.le_of_lt_succ (Nat.mod_lt n (by decide)))]
  exact (UInt8.toNat_ofNat' ..).symm

theorem ofChannels_eq_flattened (p : Rgba) : Colour.ofChannels p = AlphaOrder.rgba.flattened p :=
  calc Colour.ofChannels p = Colour.flatten p := Colour.ofChannels_four p
    _ = Colour.flatten (reorder AlphaOrder.rgba.toCanonical p) :=
        congrArg Colour.flatten (reorder_rgba p).symm
    _ = AlphaOrder.rgba.flattened p := (reorder_rgb _).symm

/-- Bytes with four channels are normalized to what removing alpha makes of them. -/
theorem normalized_bytes (b : Block) (width height : Nat) :
    @normalized .uint8 (.stacked 4 (by decide)) (pixelsOf b width height 4 (BitVec.ofNat 8)) =
      (pixelsOf b width height 4 Nat.toUInt8).map AlphaOrder.rgba.flattened :=
  have bytes := map_pixelsOf b width height 4 (BitVec.ofNat 8) (Depth.byte .uint8)
  calc @normalized .uint8 (.stacked 4 (by decide)) (pixelsOf b width height 4 (BitVec.ofNat 8))
    _ = ((pixelsOf b width height 4 (BitVec.ofNat 8)).map (Vector.map (Depth.byte .uint8))).map
          Colour.ofChannels := (Grid.map_map ..).symm
    _ = (pixelsOf b width height 4 Nat.toUInt8).map Colour.ofChannels :=
          congrArg (Grid.map Colour.ofChannels)
            (bytes.trans (congrArg (pixelsOf b width height 4) (funext byte_uint8)))
    _ = (pixelsOf b width height 4 Nat.toUInt8).map AlphaOrder.rgba.flattened :=
          congrArg (fun f => Grid.map f (pixelsOf b width height 4 Nat.toUInt8))
            (funext ofChannels_eq_flattened)

end Raster

/-- Without a limit, normalizing a custom raster always succeeds, and the number of channels says
what becomes of a pixel. Bytes with four channels become what removing alpha makes of them. -/
theorem normalizing_follows_channels {settings : Settings}
    (free : Budget.limit settings none = .ok 0) :
    (∀ r : Raster, r.layout = .custom → ∃ after entry,
      r.normalize settings = .ok (.produced after entry) ∧ after.layout = .rgb ∧
        after.size = r.size ∧ ∀ row col, row < r.height → col < r.width →
          Colour.FromChannels r.channels (r.byteAt row col) (after.channelAt row col)) ∧
    ∀ (b : Block) (height width : Nat), b.element = .sample .uint8 →
      b.shape = [height, width, 4] → ∃ custom covered after after',
        Raster.ofBlock .custom b = .ok custom ∧ Raster.ofBlock .rgba b = .ok covered ∧
        Edit.normalize.leaves settings custom = .ok after ∧
        Edit.removeAlpha.leaves settings covered = .ok after' ∧
        after.sameNumbers after' = true := by
  constructor
  · intro r layout_eq
    cases r with
    | custom kind axis pixels =>
      obtain ⟨entry, made⟩ := Raster.normalize_custom free pixels
      refine ⟨_, entry, made, rfl, rfl, ?_⟩
      intro row col hr hc
      exact Raster.fromChannels_normalized pixels hr hc
    | _ => cases layout_eq
  · intro b height width element shape
    refine ⟨_, _, _, _, Raster.ofBlock_custom_bytes element shape,
      Raster.ofBlock_alpha_bytes element shape .rgba, Edit.normalize_leaves free _,
      Edit.removeAlpha_leaves free _ _, ?_⟩
    rw [Raster.normalized_bytes]
    exact Raster.sameNumbers_self rfl

theorem normalizing_follows_channels_gray_alpha :
    Budget.limit .default none = .ok 0 ∧
    (∃ after entry, (Raster.custom .uint16 (.stacked 2 (by decide))
        (.replicate 2 1 #v[65535, 128])).normalize .default = .ok (.produced after entry) ∧
      Colour.FromChannels 2 ((Raster.custom .uint16 (.stacked 2 (by decide))
        (.replicate 2 1 #v[65535, 128])).byteAt 0 1) (after.channelAt 0 1)) ∧
    ∃ custom covered after after',
      Raster.ofBlock .custom (.ramp (.sample .uint8) [1, 2, 4] 37 5 256) = .ok custom ∧
      Raster.ofBlock .rgba (.ramp (.sample .uint8) [1, 2, 4] 37 5 256) = .ok covered ∧
      Edit.normalize.leaves .default custom = .ok after ∧
      Edit.removeAlpha.leaves .default covered = .ok after' ∧ after.sameNumbers after' = true := by
  have free : Budget.limit .default none = .ok 0 := rfl
  obtain ⟨custom, bytes⟩ := normalizing_follows_channels free
  obtain ⟨after, entry, made, -, -, shown⟩ := custom (.custom .uint16 (.stacked 2 (by decide))
    (.replicate 2 1 #v[65535, 128])) rfl
  exact ⟨free, ⟨after, entry, made, shown 0 1 (by decide) (by decide)⟩, bytes _ 1 2 rfl rfl⟩

end RasterEdit
