import RasterEdit.Image.Picture
import RasterEdit.Proofs.Raster.Buffer
import RasterEdit.Proofs.Raster.Movement

/-!
# Twins in canonical order

A raster and its twin, which holds the same channels in canonical order, have the same picture and
are moved in the same way.
-/

set_option autoImplicit false

namespace RasterEdit

/-- The layout with the same channels in canonical order. -/
def Layout.canonical : Layout → Layout
  | .colour _ => .rgb
  | .alpha _ => .rgba
  | other => other

theorem Layout.canonical_of_not_standard {layout : Layout} (other : layout.isStandard = false) :
    layout.canonical = layout := by
  cases layout with
  | custom => rfl
  | _ => cases other

theorem Layout.isStandard_canonical (layout : Layout) :
    layout.canonical.isStandard = layout.isStandard := by
  cases layout <;> rfl

namespace Raster

/-- The raster with its channels in canonical order. -/
def twin : Raster → Raster
  | colour order pixels => colour .rgb (pixels.map (reorder order.toCanonical))
  | alpha order pixels => alpha .rgba (pixels.map (reorder order.toCanonical))
  | other => other

theorem layout_twin (r : Raster) : r.twin.layout = r.layout.canonical := by
  cases r <;> rfl

theorem size_twin (r : Raster) : r.twin.size = r.size := by
  cases r <;> rfl

theorem isEmpty_twin (r : Raster) : r.twin.isEmpty = r.isEmpty :=
  congrArg Size.isEmpty r.size_twin

theorem toBlock_twin (r : Raster) : r.twin.toBlock = r.canonical := by
  cases r <;> rfl

/-- The canonical layout and the samples in canonical order belong to the twin alone. -/
theorem eq_twin {r t : Raster} (layout_eq : t.layout = r.layout.canonical)
    (block_eq : t.toBlock = r.canonical) : t = r.twin :=
  eq_of_toBlock (layout_eq.trans r.layout_twin.symm) (block_eq.trans r.toBlock_twin.symm)

end Raster

/-! ## Canonical orders -/

theorem reorder_of_fixed {α : Type} {n : Nat} {order : Vector (Fin n) n}
    (fixed : ∀ i : Fin n, order.get i = i) (pixel : Vector α n) : reorder order pixel = pixel := by
  apply Vector.ext
  intro i hi
  have position : order[i].val = i := congrArg Fin.val (fixed ⟨i, hi⟩)
  rw [getElem_reorder]
  simp only [Fin.getElem_fin, position]

theorem reorder_rgb {α : Type} (pixel : Vector α 3) :
    reorder ColourOrder.rgb.toCanonical pixel = pixel :=
  reorder_of_fixed (by decide) pixel

theorem reorder_rgba {α : Type} (pixel : Vector α 4) :
    reorder AlphaOrder.rgba.toCanonical pixel = pixel :=
  reorder_of_fixed (by decide) pixel

namespace Raster

theorem twin_colour_rgb (pixels : Grid Rgb) : (colour .rgb pixels).twin = colour .rgb pixels :=
  congrArg (colour .rgb) (Grid.map_id_of_forall reorder_rgb pixels)

theorem twin_alpha_rgba (pixels : Grid Rgba) : (alpha .rgba pixels).twin = alpha .rgba pixels :=
  congrArg (alpha .rgba) (Grid.map_id_of_forall reorder_rgba pixels)

theorem twin_twin (r : Raster) : r.twin.twin = r.twin := by
  cases r with
  | colour order pixels => exact twin_colour_rgb _
  | alpha order pixels => exact twin_alpha_rgba _
  | _ => rfl

theorem toPicture_twin (operation : String) (r : Raster) :
    r.twin.toPicture operation = r.toPicture operation := by
  cases r with
  | colour order pixels =>
    exact congrArg (fun g => Except.ok (Picture.rgb g)) (Grid.map_id_of_forall reorder_rgb _)
  | alpha order pixels =>
    exact congrArg (fun g => Except.ok (Picture.rgba g)) (Grid.map_id_of_forall reorder_rgba _)
  | _ => rfl

theorem twin_rearrange {move : {α : Type} → Grid α → Grid α} (natural : Grid.Natural move)
    (r : Raster) : (r.rearrange move).twin = r.twin.rearrange move := by
  cases r with
  | colour order pixels => exact congrArg (colour .rgb) (natural _ pixels).symm
  | alpha order pixels => exact congrArg (alpha .rgba) (natural _ pixels).symm
  | _ => rfl

/-- Storing in a layout and reading in canonical order is storing in canonical order. -/
theorem twin_ofPicture (layout : Layout) (p : Picture) :
    (ofPicture layout p).map twin = ofPicture layout.canonical p := by
  cases layout with
  | colour order =>
    have stored : (p.toRgb.map (reorder order.ofCanonical)).map (reorder order.toCanonical) =
        p.toRgb.map (reorder ColourOrder.rgb.ofCanonical) := by
      rw [Grid.map_map, Grid.map_id_of_forall order.reorder_toCanonical_ofCanonical]
      exact (Grid.map_id_of_forall reorder_rgb _).symm
    exact congrArg (fun g => Except.ok (colour .rgb g)) stored
  | alpha order =>
    have stored : (p.toRgba.map (reorder order.ofCanonical)).map (reorder order.toCanonical) =
        p.toRgba.map (reorder AlphaOrder.rgba.ofCanonical) := by
      rw [Grid.map_map, Grid.map_id_of_forall order.reorder_toCanonical_ofCanonical]
      exact (Grid.map_id_of_forall reorder_rgba _).symm
    exact congrArg (fun g => Except.ok (alpha .rgba g)) stored
  | _ => rfl

end Raster

end RasterEdit
