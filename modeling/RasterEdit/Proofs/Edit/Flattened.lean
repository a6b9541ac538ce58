import RasterEdit.Proofs.Edit.Recolouring
import RasterEdit.Proofs.Image.Colour
import RasterEdit.Proofs.Raster.Channels

/-!
# Alpha removed over black

Every colour channel that is left is the channel times alpha over 255, rounded to the nearest
integer. Channels are named, so the stored orders before and after may differ.
-/

set_option autoImplicit false

namespace RasterEdit

/-! ## Pixels -/

theorem AlphaOrder.channel_flattened {c : Channel} (coloured : c ≠ .alpha) (order : AlphaOrder)
    (p : Vector UInt8 4) :
    Colour.channel (reorder order.withoutAlpha.toCanonical (order.flattened p)) c =
      Colour.overBlack (Colour.channel (reorder order.toCanonical p) c)
        (Colour.channel (reorder order.toCanonical p) .alpha) := by
  rw [flattened, ColourOrder.reorder_toCanonical_ofCanonical, Colour.channel_flatten coloured]

/-! ## Rasters -/

namespace Raster

/-- A raster without alpha that shows what another one shows over black. Only a raster with blue
before red keeps that order. -/
structure OverBlack (r after : Raster) : Prop where
  layout_eq : after.layout = if r.layout = .abgr then .bgr else .rgb
  size_eq : after.size = r.size
  nearest : ∀ {row col : Nat}, row < r.height → col < r.width → ∀ {c : Channel}, c ≠ .alpha →
    |(after.channelAt row col c : ℚ) -
      r.channelAt row col c * r.channelAt row col .alpha / 255| < 1 / 2

theorem overBlack_flattened (order : AlphaOrder) (pixels : Grid (Vector UInt8 4)) :
    (alpha order pixels).OverBlack
      (colour order.withoutAlpha (pixels.map order.flattened)) where
  layout_eq := by cases order <;> rfl
  size_eq := rfl
  nearest := by
    intro row col (hr : row < pixels.height) (hc : col < pixels.width) c coloured
    rw [channelAt_colour coloured hr hc, Grid.get_map, order.channel_flattened coloured,
      channelAt_alpha hr hc, channelAt_alpha hr hc]
    exact Colour.overBlack_nearest ..

end Raster

/-- Without a limit, removing alpha always succeeds: it composites over black, and there is nothing
to remove from what it leaves. -/
theorem removing_alpha_composites_over_black {settings : Settings}
    (free : Budget.limit settings none = .ok 0) {r : Raster} (covered : r.layout.hasAlpha = true) :
    ∃ after entry, r.removeAlpha settings = .ok (.produced after entry) ∧ r.OverBlack after ∧
      ∀ settings', after.removeAlpha settings' = .ok (.unchanged none) := by
  cases r with
  | alpha order pixels =>
    obtain ⟨entry, removed⟩ := Raster.removeAlpha_alpha free order pixels
    refine ⟨_, entry, removed, Raster.overBlack_flattened order pixels, ?_⟩
    intro settings'
    rfl
  | _ => cases covered

theorem removing_alpha_composites_over_black_blue_first :
    Budget.limit .default none = .ok 0 ∧
      (Raster.alpha .abgr (.replicate 2 1 #v[128, 1, 2, 255])).layout.hasAlpha = true ∧
      ∃ after entry, (Raster.alpha .abgr (.replicate 2 1 #v[128, 1, 2, 255])).removeAlpha .default =
          .ok (.produced after entry) ∧ after.layout = .bgr ∧
        |(after.channelAt 0 1 .red : ℚ) - 255 * 128 / 255| < 1 / 2 := by
  have free : Budget.limit .default none = .ok 0 := rfl
  have covered : (Raster.alpha .abgr (.replicate 2 1 #v[128, 1, 2, 255])).layout.hasAlpha = true :=
    rfl
  obtain ⟨after, entry, removed, shown, -⟩ := removing_alpha_composites_over_black free covered
  refine ⟨free, covered, after, entry, removed, shown.layout_eq, ?_⟩
  exact shown.nearest (by decide) (by decide) (by decide)

end RasterEdit
