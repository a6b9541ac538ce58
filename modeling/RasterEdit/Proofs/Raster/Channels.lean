import RasterEdit.Image.Colour
import RasterEdit.Proofs.Raster.Samples

/-!
# Channels by name

The name of a layout spells the channels of a pixel in stored order. A channel that is read by its
name is the one that the pixel has in canonical order, so reordering never takes one channel for
another.
-/

set_option autoImplicit false

namespace RasterEdit

inductive Channel where
  | red | green | blue | alpha
deriving DecidableEq

/-- The channels of a pixel as the name of the layout spells them; none where it names no colour. -/
def Layout.stored : Layout → List Channel
  | .colour .rgb => [.red, .green, .blue]
  | .colour .bgr => [.blue, .green, .red]
  | .alpha .rgba => [.red, .green, .blue, .alpha]
  | .alpha .argb => [.alpha, .red, .green, .blue]
  | .alpha .abgr => [.alpha, .blue, .green, .red]
  | .gray8 | .bitonal | .custom => []

theorem Layout.isStandard_of_stored {layout : Layout} {c : Channel} (named : c ∈ layout.stored) :
    layout.isStandard = true := by
  cases layout with
  | custom => cases named
  | _ => rfl

/-! ## Pixels in canonical order -/

def Channel.place : Channel → Nat
  | red => 0
  | green => 1
  | blue => 2
  | alpha => 3

variable {c : Channel}

theorem Channel.place_lt (c : Channel) : c.place < 4 := by
  cases c <;> decide

theorem Channel.place_lt_of_ne (coloured : c ≠ .alpha) : c.place < 3 := by
  cases c with
  | alpha => exact absurd rfl coloured
  | _ => decide

namespace Colour

/-- A channel of a pixel in canonical order. Pixels without alpha are opaque. -/
def channel {n : Nat} (p : Vector UInt8 n) (c : Channel) : UInt8 := p[c.place]?.getD 255

theorem channel_of_lt {n : Nat} (inside : c.place < n) (p : Vector UInt8 n) :
    channel p c = p[c.place] := by
  rw [channel, Vector.getElem?_eq_getElem inside, Option.getD_some]

theorem channel_reorder {n : Nat} (inside : c.place < n) (order : Vector (Fin n) n)
    (p : Vector UInt8 n) : channel (reorder order p) c = p[order[c.place]] := by
  rw [channel_of_lt inside, getElem_reorder]

theorem channel_flatten (coloured : c ≠ .alpha) (p : Rgba) :
    channel (flatten p) c = overBlack (channel p c) (channel p .alpha) := by
  rw [channel_of_lt (Channel.place_lt_of_ne coloured), flatten, Vector.getElem_map]
  cases c with
  | alpha => exact absurd rfl coloured
  | _ => rfl

end Colour

/-! ## Pixels as they are stored -/

theorem Layout.idxOf_stored_colour (coloured : c ≠ .alpha) (order : ColourOrder) :
    have inside := Channel.place_lt_of_ne coloured
    (Layout.colour order).stored.idxOf c = (order.toCanonical[c.place] : Nat) := by
  cases c with
  | alpha => exact absurd rfl coloured
  | _ => cases order <;> rfl

theorem Layout.idxOf_stored_alpha (c : Channel) (order : AlphaOrder) :
    have inside := c.place_lt
    (Layout.alpha order).stored.idxOf c = (order.toCanonical[c.place] : Nat) := by
  cases c <;> cases order <;> rfl

namespace Raster

/-- The sample of a named channel, found where the layout's name puts it. -/
def channelAt (r : Raster) (row col : Nat) (c : Channel) : Nat :=
  r.sampleAt row col (r.layout.stored.idxOf c)

variable {row col : Nat}

theorem channelAt_colour {order : ColourOrder} {pixels : Grid (Vector UInt8 3)}
    (coloured : c ≠ .alpha) (hr : row < pixels.height) (hc : col < pixels.width) :
    (colour order pixels).channelAt row col c =
      (Colour.channel (reorder order.toCanonical (pixels.get row col hr hc)) c).toNat := by
  have inside := Channel.place_lt_of_ne coloured
  rw [Colour.channel_reorder inside, channelAt, layout, Layout.idxOf_stored_colour coloured]
  exact sampleAt_colour hr hc (Fin.isLt _)

theorem channelAt_alpha {order : AlphaOrder} {pixels : Grid (Vector UInt8 4)}
    (hr : row < pixels.height) (hc : col < pixels.width) :
    (alpha order pixels).channelAt row col c =
      (Colour.channel (reorder order.toCanonical (pixels.get row col hr hc)) c).toNat := by
  rw [Colour.channel_reorder c.place_lt, channelAt, layout, Layout.idxOf_stored_alpha]
  exact sampleAt_alpha hr hc (Fin.isLt _)

end Raster

end RasterEdit
