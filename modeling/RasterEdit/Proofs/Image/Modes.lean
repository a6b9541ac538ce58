import Mathlib.Data.List.Induction
import RasterEdit.Proofs.Image.Colour
import RasterEdit.Proofs.Image.RoundTrip
import RasterEdit.Proofs.Raster.Channels

/-!
# Pictures in other modes

What is left of a picture that was taken into a layout and shown again: its pixels in the mode of
the layout. Between the modes with three colour channels the colours are never touched. Alpha is
kept from one mode with alpha to the next, and is full from the first mode without alpha on.
-/

set_option autoImplicit false

namespace RasterEdit

/-- Layouts that hold red, green and blue. -/
def Layout.isColoured : Layout → Bool
  | .colour _ | .alpha _ => true
  | _ => false

theorem Layout.isStandard_of_coloured {layout : Layout} (coloured : layout.isColoured = true) :
    layout.isStandard = true := by
  cases layout with
  | custom => cases coloured
  | _ => rfl

namespace Picture

/-- The picture in the mode of a layout. -/
def inMode (p : Picture) : Layout → Picture
  | .colour _ => rgb p.toRgb
  | .alpha _ => rgba p.toRgba
  | .gray8 => gray p.toGray
  | .bitonal => bitonal p.toBitonal
  | .custom => p

/-! ## Colours -/

theorem map_colour_toRgba (p : Picture) : p.toRgba.map Colour.colour = p.toRgb := by
  have solid (c : Rgb) : Colour.colour (Colour.solid c) = c := by
    apply Vector.ext
    intro i hi
    match i, hi with
    | 0, _ => rfl
    | 1, _ => rfl
    | 2, _ => rfl
  cases p with
  | rgba pixels => rfl
  | rgb pixels => exact (Grid.map_map ..).trans (Grid.map_id_of_forall solid pixels)
  | gray pixels =>
    rw [toRgba, toRgb, Grid.map_map]
    simp only [solid]
  | bitonal pixels =>
    rw [toRgba, toRgb, Grid.map_map]
    simp only [solid]

theorem toRgb_inMode {layout : Layout} (coloured : layout.isColoured = true) (p : Picture) :
    (p.inMode layout).toRgb = p.toRgb := by
  cases layout with
  | colour order => rfl
  | alpha order => exact p.map_colour_toRgba
  | _ => cases coloured

theorem toGray_inMode {layout : Layout} (coloured : layout.isColoured = true) (p : Picture) :
    (p.inMode layout).toGray = p.toRgb.map Colour.luma := by
  cases layout with
  | colour order => rfl
  | alpha order =>
    rw [← map_colour_toRgba, Grid.map_map]
    rfl
  | _ => cases coloured

theorem map_luma_toRgb_gray (pixels : Grid UInt8) :
    (gray pixels).toRgb.map Colour.luma = pixels :=
  (Grid.map_map ..).trans (Grid.map_id_of_forall (fun _ => Colour.luma_of_gray rfl rfl rfl) pixels)

/-! ## Sides -/

theorem sides_toRgb (p : Picture) :
    p.toRgb.width = p.size.width ∧ p.toRgb.height = p.size.height := by
  cases p <;> exact ⟨rfl, rfl⟩

theorem sides_toRgba (p : Picture) :
    p.toRgba.width = p.size.width ∧ p.toRgba.height = p.size.height := by
  cases p <;> exact ⟨rfl, rfl⟩

/-! ## Alpha -/

/-- A picture that has full alpha everywhere, or will have when it is given alpha. -/
def IsOpaque (p : Picture) : Prop := p.toRgba = p.toRgb.map Colour.solid

theorem toRgba_inMode {layout : Layout} (alpha : layout.hasAlpha = true) (p : Picture) :
    (p.inMode layout).toRgba = p.toRgba := by
  cases layout with
  | alpha order => rfl
  | _ => cases alpha

theorem isOpaque_inMode {layout : Layout} (coloured : layout.isColoured = true) (p : Picture)
    (either : layout.hasAlpha = false ∨ p.IsOpaque) : (p.inMode layout).IsOpaque := by
  cases layout with
  | colour order => rfl
  | alpha order =>
    rcases either with bare | solid
    · cases bare
    · rw [IsOpaque, toRgb_inMode coloured, toRgba_inMode rfl]
      exact solid
  | _ => cases coloured

/-! ## Sequences of modes -/

/-- The picture after it was taken into one layout after the other. -/
def inModes (p : Picture) (layouts : List Layout) : Picture := layouts.foldl inMode p

section Sequences

variable {layouts : List Layout}

theorem toRgb_inModes (coloured : ∀ layout ∈ layouts, layout.isColoured = true) (p : Picture) :
    (p.inModes layouts).toRgb = p.toRgb := by
  induction layouts generalizing p with
  | nil => rfl
  | cons layout layouts ih =>
    rw [List.forall_mem_cons] at coloured
    exact (ih coloured.2 (p.inMode layout)).trans (p.toRgb_inMode coloured.1)

theorem toRgba_inModes (alpha : ∀ layout ∈ layouts, layout.hasAlpha = true) (p : Picture) :
    (p.inModes layouts).toRgba = p.toRgba := by
  induction layouts generalizing p with
  | nil => rfl
  | cons layout layouts ih =>
    rw [List.forall_mem_cons] at alpha
    exact (ih alpha.2 (p.inMode layout)).trans (p.toRgba_inMode alpha.1)

theorem isOpaque_inModes (coloured : ∀ layout ∈ layouts, layout.isColoured = true) (p : Picture)
    (either : (∃ layout ∈ layouts, layout.hasAlpha = false) ∨ p.IsOpaque) :
    (p.inModes layouts).IsOpaque := by
  induction layouts generalizing p with
  | nil =>
    rcases either with ⟨layout, member, -⟩ | solid
    · cases member
    · exact solid
  | cons layout layouts ih =>
    rw [List.forall_mem_cons] at coloured
    refine ih coloured.2 (p.inMode layout) ?_
    rw [List.exists_mem_cons_iff, or_assoc] at either
    rcases either with bare | later | solid
    · exact .inr (p.isOpaque_inMode coloured.1 (.inl bare))
    · exact .inl later
    · exact .inr (p.isOpaque_inMode coloured.1 (.inr solid))

/-- Gray pixels come back from any sequence of colours: their gray value is the one they had. -/
theorem toGray_inModes (coloured : ∀ layout ∈ layouts, layout.isColoured = true)
    (pixels : Grid UInt8) : ((gray pixels).inModes layouts).toGray = pixels := by
  cases layouts using List.reverseRecOn with
  | nil => rfl
  | append_singleton layouts layout =>
    rw [List.forall_mem_append, List.forall_mem_singleton] at coloured
    rw [inModes, List.foldl_append]
    exact (toGray_inMode coloured.2 _).trans
      ((congrArg (Grid.map Colour.luma) (toRgb_inModes coloured.1 _)).trans
        (map_luma_toRgb_gray pixels))

end Sequences

end Picture

/-! ## Rasters -/

namespace Raster

theorem toPicture_of_ofPicture {layout : Layout} (standard : layout.isStandard = true)
    {p : Picture} {r : Raster} (taken : ofPicture layout p = .ok r) (operation : String) :
    r.toPicture operation = .ok (p.inMode layout) := by
  cases layout with
  | custom => cases standard
  | colour order =>
    obtain rfl := Except.ok.inj taken
    exact congrArg (fun g => Except.ok (Picture.rgb g))
      ((Grid.map_map ..).trans (Grid.map_id_of_forall order.reorder_toCanonical_ofCanonical _))
  | alpha order =>
    obtain rfl := Except.ok.inj taken
    exact congrArg (fun g => Except.ok (Picture.rgba g))
      ((Grid.map_map ..).trans (Grid.map_id_of_forall order.reorder_toCanonical_ofCanonical _))
  | gray8 =>
    obtain rfl := Except.ok.inj taken
    rfl
  | bitonal =>
    obtain rfl := Except.ok.inj taken
    rfl

theorem isOpaque_of_bare {operation : String} {r : Raster} {p : Picture}
    (bare : r.layout.hasAlpha = false) (shown : r.toPicture operation = .ok p) : p.IsOpaque := by
  cases r with
  | alpha order pixels => cases bare
  | custom kind axis pixels => cases shown
  | colour order pixels =>
    obtain rfl := Except.ok.inj shown
    rfl
  | _ =>
    obtain rfl := Except.ok.inj shown
    exact (Grid.map_map ..).symm

/-- The byte of a channel among the samples in canonical order. -/
def canonicalAt (r : Raster) (row col : Nat) (c : Channel) : Nat :=
  r.canonical.patternAt ((row * r.width + col) * r.channels + c.place)

section Shown

variable {operation : String} {r : Raster} {p : Picture}
  (shown : r.toPicture operation = .ok p) {row col : Nat} {c : Channel}

include shown

theorem canonicalAt_of_coloured (coloured : r.layout.isColoured = true) (colours : c ≠ .alpha)
    {g : Grid Rgb} (seen : p.toRgb = g) (hr : row < g.height) (hc : col < g.width) :
    r.canonicalAt row col c = (Colour.channel (g.get row col hr hc) c).toNat := by
  have inside := Channel.place_lt_of_ne colours
  cases r with
  | colour order pixels =>
    obtain rfl := Except.ok.inj shown
    obtain rfl := seen
    rw [Colour.channel_of_lt inside]
    exact @sampleAt_colour .rgb _ _ _ _ hr hc inside
  | alpha order pixels =>
    obtain rfl := Except.ok.inj shown
    obtain rfl := seen
    have cell : (Picture.toRgb (.rgba (pixels.map (reorder order.toCanonical)))).get row col hr hc =
        Colour.colour ((pixels.map (reorder order.toCanonical)).get row col hr hc) :=
      Grid.get_map ..
    have inside : c.place < 4 := c.place_lt
    have channel (q : Rgba) : Colour.channel (Colour.colour q) c = q[c.place] := by
      cases c with
      | alpha => exact absurd rfl colours
      | _ => rfl
    rw [cell, channel]
    exact @sampleAt_alpha .rgba _ _ _ _ hr hc inside
  | _ => cases coloured

theorem canonicalAt_of_alpha (alpha : r.layout.hasAlpha = true) {g : Grid Rgba}
    (seen : p.toRgba = g) (hr : row < g.height) (hc : col < g.width) :
    r.canonicalAt row col c = (Colour.channel (g.get row col hr hc) c).toNat := by
  cases r with
  | alpha order pixels =>
    obtain rfl := Except.ok.inj shown
    obtain rfl := seen
    rw [Colour.channel_of_lt c.place_lt]
    exact @sampleAt_alpha .rgba _ _ _ _ hr hc c.place_lt
  | _ => cases alpha

end Shown

end Raster

end RasterEdit
