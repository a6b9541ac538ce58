import RasterEdit.Proofs.Image.Colour
import RasterEdit.Proofs.Session.Produced
import RasterEdit.Proofs.Session.Simulation

/-!
# Hidden colour

The colour of a pixel with alpha zero cannot be seen. Pixels are compared through a veil that blanks
such pixels: movements commute with it, and everything else that an edit does to a raster with alpha
reads the pixels through it.
-/

set_option autoImplicit false

namespace RasterEdit

/-! ## Pixels -/

namespace Colour

/-- Blanks a pixel with alpha zero. -/
def veil (p : Rgba) : Rgba := if alpha p = 0 then Vector.replicate 4 0 else p

private theorem map_zero {n : Nat} {f : UInt8 → UInt8} (zero : ∀ c, f c = 0) (p : Vector UInt8 n) :
    p.map f = Vector.replicate n 0 := by
  apply Vector.ext
  intro i hi
  rw [Vector.getElem_map, Vector.getElem_replicate, zero]

theorem scaled_zero (c : UInt8) : scaled c 0 = 0 := by
  rw [scaled, UInt8.toNat_zero, Nat.mul_zero]
  rfl

theorem premultiply_of_alpha_zero {p : Rgba} (hidden : alpha p = 0) :
    premultiply p = Vector.replicate 4 0 := by
  rw [premultiply, hidden, map_zero scaled_zero]
  rfl

theorem flatten_of_alpha_zero {p : Rgba} (hidden : alpha p = 0) :
    flatten p = Vector.replicate 3 0 := by
  rw [flatten, hidden]
  exact map_zero (fun _ => if_pos rfl) _

theorem premultiply_veil (p : Rgba) : premultiply (veil p) = premultiply p := by
  unfold veil
  split
  · next hidden =>
    rw [premultiply_of_alpha_zero hidden]
    exact premultiply_of_alpha_zero rfl
  · rfl

theorem flatten_veil (p : Rgba) : flatten (veil p) = flatten p := by
  unfold veil
  split
  · next hidden =>
    rw [flatten_of_alpha_zero hidden]
    exact flatten_of_alpha_zero rfl
  · rfl

end Colour

namespace AlphaOrder

def alphaOf (order : AlphaOrder) (p : Vector UInt8 4) : UInt8 :=
  Colour.alpha (reorder order.toCanonical p)

def colourOf (order : AlphaOrder) (p : Vector UInt8 4) : Rgb :=
  Colour.colour (reorder order.toCanonical p)

/-- Equal alpha, and equal colour unless alpha is zero. -/
structure LooksLike (order : AlphaOrder) (p q : Vector UInt8 4) : Prop where
  alpha_eq : order.alphaOf p = order.alphaOf q
  colour_eq : order.alphaOf p ≠ 0 → order.colourOf p = order.colourOf q

def veil (order : AlphaOrder) (p : Vector UInt8 4) : Vector UInt8 4 :=
  if order.alphaOf p = 0 then Vector.replicate 4 0 else p

theorem reorder_replicate {α : Type} {n : Nat} (order : Vector (Fin n) n) (a : α) :
    reorder order (Vector.replicate n a) = Vector.replicate n a := by
  apply Vector.ext
  intro i hi
  simp [getElem_reorder]

theorem reorder_veil (order : AlphaOrder) (p : Vector UInt8 4) :
    reorder order.toCanonical (order.veil p) = Colour.veil (reorder order.toCanonical p) := by
  unfold veil Colour.veil alphaOf
  split
  · exact reorder_replicate ..
  · rfl

theorem eq_of_alphaOf_colourOf {order : AlphaOrder} {p q : Vector UInt8 4}
    (alpha_eq : order.alphaOf p = order.alphaOf q)
    (colour_eq : order.colourOf p = order.colourOf q) : p = q := by
  have canonical : reorder order.toCanonical p = reorder order.toCanonical q := by
    rw [← Colour.withAlpha_colour_alpha (reorder order.toCanonical p),
      ← Colour.withAlpha_colour_alpha (reorder order.toCanonical q)]
    exact congrArg₂ Colour.withAlpha colour_eq alpha_eq
  rw [← order.reorder_ofCanonical_toCanonical p, canonical, order.reorder_ofCanonical_toCanonical]

theorem alphaOf_veil (order : AlphaOrder) (p : Vector UInt8 4) :
    order.alphaOf (order.veil p) = order.alphaOf p := by
  unfold veil
  split
  · next hidden =>
    rw [hidden, alphaOf, reorder_replicate]
    rfl
  · rfl

theorem looksLike_iff {order : AlphaOrder} {p q : Vector UInt8 4} :
    order.LooksLike p q ↔ order.veil p = order.veil q := by
  constructor
  · intro alike
    by_cases hidden : order.alphaOf p = 0
    · rw [veil, veil, if_pos hidden, if_pos (alike.alpha_eq ▸ hidden)]
    · rw [eq_of_alphaOf_colourOf alike.alpha_eq (alike.colour_eq hidden)]
  · intro same
    have alpha_eq : order.alphaOf p = order.alphaOf q := by
      rw [← alphaOf_veil, same, alphaOf_veil]
    refine ⟨alpha_eq, ?_⟩
    intro visible
    rw [veil, veil, if_neg visible, if_neg (alpha_eq ▸ visible)] at same
    rw [same]

end AlphaOrder

/-! ## Rasters -/

/-- Two grids have the same values under a function if they have the same sides and the same value
at each position. -/
theorem Grid.map_eq_map_iff {α β : Type} {f : α → β} {g h : Grid α} :
    g.map f = h.map f ↔ ∃ (width_eq : g.width = h.width) (height_eq : g.height = h.height),
      ∀ row col (hr : row < g.height) (hc : col < g.width),
        f (g.get row col hr hc) = f (h.get row col (height_eq ▸ hr) (width_eq ▸ hc)) := by
  constructor
  · intro same
    have width_eq : g.width = h.width := congrArg (fun k : Grid β => k.width) same
    have height_eq : g.height = h.height := congrArg (fun k : Grid β => k.height) same
    refine ⟨width_eq, height_eq, ?_⟩
    intro row col hr hc
    have cells (k : Grid β) (equal : g.map f = k) : (g.map f).get row col hr hc =
        k.get row col (by rw [← equal]; exact hr) (by rw [← equal]; exact hc) := by
      subst equal
      rfl
    exact (get_map f g row col hr hc).symm.trans ((cells _ same).trans (get_map f h ..))
  · rintro ⟨width_eq, height_eq, values⟩
    refine ext_get width_eq height_eq ?_
    intro row col (hr : row < g.height) (hc : col < g.width)
    exact (get_map f g row col hr hc).trans ((values row col hr hc).trans (get_map f h ..).symm)

namespace Raster

/-- Equal rasters, or rasters with the same alpha order and size whose pixels look alike. -/
inductive LooksLike : Raster → Raster → Prop where
  | refl (r : Raster) : LooksLike r r
  | alpha {order : AlphaOrder} {a b : Grid (Vector UInt8 4)} (width_eq : a.width = b.width)
      (height_eq : a.height = b.height)
      (pixels : ∀ row col (hr : row < a.height) (hc : col < a.width),
        order.LooksLike (a.get row col hr hc) (b.get row col (height_eq ▸ hr) (width_eq ▸ hc))) :
      LooksLike (.alpha order a) (.alpha order b)

def veil : Raster → Raster
  | alpha order pixels => alpha order (pixels.map order.veil)
  | other => other

theorem layout_veil (r : Raster) : r.veil.layout = r.layout := by
  cases r <;> rfl

theorem size_veil (r : Raster) : r.veil.size = r.size := by
  cases r <;> rfl

theorem looksLike_iff {r t : Raster} : r.LooksLike t ↔ r.veil = t.veil := by
  constructor
  · intro alike
    cases alike with
    | refl r => rfl
    | @alpha order a b width_eq height_eq pixels =>
      apply congrArg (Raster.alpha order)
      refine Grid.map_eq_map_iff.mpr ⟨width_eq, height_eq, ?_⟩
      intro row col hr hc
      exact AlphaOrder.looksLike_iff.mp (pixels row col hr hc)
  · intro same
    cases r with
    | alpha order a =>
      cases t with
      | alpha order' b =>
        simp only [veil, Raster.alpha.injEq] at same
        obtain ⟨rfl, grids⟩ := same
        obtain ⟨width_eq, height_eq, values⟩ := Grid.map_eq_map_iff.mp grids
        refine .alpha width_eq height_eq ?_
        intro row col hr hc
        exact AlphaOrder.looksLike_iff.mpr (values row col hr hc)
      | _ => cases same
    | _ =>
      cases t with
      | alpha order' b => cases same
      | _ =>
        simp only [veil] at same
        rw [same]
        exact .refl _

theorem veil_rearrange {move : {α : Type} → Grid α → Grid α} (natural : Grid.Natural move)
    (r : Raster) : (r.rearrange move).veil = r.veil.rearrange move := by
  cases r with
  | alpha order pixels => exact congrArg (alpha order) (natural _ pixels).symm
  | _ => rfl

end Raster

/-! ## Edits -/

namespace Edit

/-- The edits that do more than move pixels: an alpha they find is multiplied into the colour. -/
def Composites : Edit → Prop
  | .scale .. | .rotate _ | .tone _ | .removeAlpha => True
  | .crop .. | .flip _ | .normalize => False

theorem make_veil_of_moves (settings : Settings) (size : Size) (r : Raster) {e : Edit}
    (moves : ¬e.Composites) :
    e.make settings size r.veil = (e.make settings size r).map Raster.veil := by
  cases e with
  | crop request reduction =>
    simp only [make, Raster.size_veil]
    cases request.region r.size.toPair reduction with
    | error fault => rfl
    | ok region => exact congrArg Except.ok (r.veil_rearrange (Grid.natural_crop region)).symm
  | flip direction => exact congrArg Except.ok (r.veil_rearrange (Grid.natural_flip direction)).symm
  | normalize => cases r <;> rfl
  | _ => exact absurd trivial moves

/-- Scaling and rotating premultiply, the others composite over black. -/
theorem make_veil_of_composites (settings : Settings) (size : Size) (r : Raster) {e : Edit}
    (composites : e.Composites) : e.make settings size r.veil = e.make settings size r := by
  cases r with
  | alpha order pixels =>
    have canonical : (pixels.map order.veil).map (reorder order.toCanonical) =
        (pixels.map (reorder order.toCanonical)).map Colour.veil := by
      rw [Grid.map_map, Grid.map_map]
      simp only [order.reorder_veil]
    have premultiplied (g : Grid Rgba) :
        (g.map Colour.veil).map Colour.premultiply = g.map Colour.premultiply := by
      rw [Grid.map_map]
      simp only [Colour.premultiply_veil]
    cases e with
    | scale request reduction highQuality =>
      simp only [make, Raster.veil, Raster.toPicture, Raster.layout, Result.ok_bind, canonical,
        Picture.resampled, premultiplied]
    | rotate request =>
      simp only [make, Raster.veil, Raster.toPicture, Result.ok_bind, canonical, Picture.toRgba,
        Turn.renderStraight, premultiplied]
      rfl
    | tone wanted =>
      have flattened (g : Grid Rgba) : ((Picture.rgba (g.map Colour.veil)).grayOverBlack) =
          (Picture.rgba g).grayOverBlack := by
        simp only [Picture.grayOverBlack, Grid.map_map, Colour.flatten_veil]
      simp only [make, Raster.veil, Raster.toPicture, Result.ok_bind, canonical, flattened]
    | removeAlpha =>
      simp only [make, Raster.veil, Grid.map_map, order.reorder_veil, Colour.flatten_veil]
    | _ => exact composites.elim
  | _ => rfl

/-- What composites makes the same raster of all that look alike. -/
theorem make_eq_of_looksLike {r t : Raster} (alike : r.LooksLike t) {e : Edit}
    (composites : e.Composites) (settings : Settings) (size : Size) :
    e.make settings size r = e.make settings size t := by
  rw [← make_veil_of_composites settings size r composites, Raster.looksLike_iff.mp alike,
    make_veil_of_composites settings size t composites]

end Edit

theorem Raster.looksLike_simulates : Raster.Simulates Raster.LooksLike where
  plan := by
    intro r t alike e
    have veils := looksLike_iff.mp alike
    rw [← r.layout_veil, ← r.size_veil, veils, t.layout_veil, t.size_veil]
    exact .refl Plan.alike_refl _
  make := by
    intro r t alike settings e p q r' t' _ _ plans left right
    by_cases composites : e.Composites
    · rw [e.make_eq_of_looksLike alike composites, plans.size_eq, right] at left
      cases left
      exact .refl _
    · apply looksLike_iff.mpr
      have veils := e.make_veil_of_moves settings p.size r composites
      rw [looksLike_iff.mp alike, plans.size_eq, e.make_veil_of_moves settings q.size t composites,
        right, ← plans.size_eq, left] at veils
      exact (Except.ok.inj veils).symm

theorem Raster.eq_simulates : Raster.Simulates Eq where
  plan := by
    rintro r t rfl e
    exact .refl Plan.alike_refl _
  make := by
    rintro r t rfl settings e p q r' t' _ _ plans left right
    rw [plans.size_eq, right] at left
    exact (Except.ok.inj left).symm

/-! ## Sessions -/

namespace Session

theorem standard_step {s : Session} {step : Result Step} (requested : Requested step)
    (standard : s.current.raster.layout.isStandard = true) :
    (s.step step).1.current.raster.layout.isStandard = true := by
  cases requested with
  | refused fault => exact standard
  | configure settings => exact standard
  | edit e =>
    rcases s.step_edit_cases e with same | ⟨after, entries, answered, stepped⟩
    · rw [same]
      exact standard
    · obtain ⟨p, planned, made, layout_eq, size_eq, -, -⟩ := fresh_planned answered
      rw [stepped]
      exact (Edit.predicts_of_plan planned made layout_eq size_eq).isStandard standard

/-- Whatever a request does to a raster of a standard layout, the layout stays standard. -/
theorem standard_after {s : Session} {steps : List (Result Step)}
    (requested : ∀ step ∈ steps, Requested step)
    (standard : s.current.raster.layout.isStandard = true) :
    (s.after steps).current.raster.layout.isStandard = true := by
  induction steps generalizing s with
  | nil => exact standard
  | cons step steps ih =>
    apply ih
    · intro other member
      exact requested other (List.mem_cons_of_mem _ member)
    · exact standard_step (requested step List.mem_cons_self) standard

theorem equal_after_composite {s t : Session} (related : Related Raster.LooksLike s t) {e : Edit}
    (composites : e.Composites) {after : Raster} {entries : List Journal.Entry}
    (answered : (s.step (.ok (.edit e))).2 = .ok (.fresh after, entries)) :
    Related Eq (s.step (.ok (.edit e))).1 (t.step (.ok (.edit e))).1 := by
  obtain ⟨answers, -⟩ := related.step_edit Raster.looksLike_simulates e
  rw [answered] at answers
  obtain ⟨after', notes, answered', -⟩ := answers.fresh
  obtain ⟨p, planned, made, -, -, -, stepped⟩ := fresh_planned answered
  obtain ⟨q, planned', made', -, -, -, stepped'⟩ := fresh_planned answered'
  have veils := Raster.looksLike_iff.mp related.current
  have layouts : s.current.raster.layout = t.current.raster.layout := by
    rw [← Raster.layout_veil, veils, Raster.layout_veil]
  have sizes : s.current.raster.size = t.current.raster.size := by
    rw [← Raster.size_veil, veils, Raster.size_veil]
  rw [layouts, sizes, planned'] at planned
  cases planned
  rw [e.make_eq_of_looksLike related.current composites, related.settings_eq, made'] at made
  cases made
  rw [stepped, stepped']
  exact ⟨related.settings_eq, rfl⟩

/-- Rasters that look alike give the same failures, keep and replace their rasters at the same
steps, and stay alike. From the first edit on that composites and makes a new raster, the rasters of
both runs are equal. -/
theorem hidden_colour_stays_hidden (settings : Settings) {order : AlphaOrder}
    {a b : Grid (Vector UInt8 4)} (alike : (Raster.alpha order a).LooksLike (.alpha order b))
    {steps : List (Result Step)} (requested : ∀ step ∈ steps, Requested step) :
    (List.Forall₂ (Answers Raster.LooksLike) ((start settings (.alpha order a)).run steps)
        ((start settings (.alpha order b)).run steps) ∧
      ((start settings (.alpha order a)).after steps).current.raster.LooksLike
        ((start settings (.alpha order b)).after steps).current.raster) ∧
    ∀ (done later : List (Result Step)) (e : Edit) (after : Raster) (entries : List Journal.Entry),
      steps = done ++ .ok (.edit e) :: later → e.Composites →
      (((start settings (.alpha order a)).after done).step (.ok (.edit e))).2 =
        .ok (.fresh after, entries) →
      ((start settings (.alpha order a)).after steps).current.raster.sameNumbers
        ((start settings (.alpha order b)).after steps).current.raster = true := by
  have together : Related Raster.LooksLike (start settings (.alpha order a))
      (start settings (.alpha order b)) := ⟨rfl, alike⟩
  have lockstep {s t : Session} (related : Related Raster.LooksLike s t) (step : Result Step)
      (asked : Requested step) := related.step_requested Raster.looksLike_simulates asked
  obtain ⟨answers, final⟩ := run_related lockstep together requested
  refine ⟨⟨answers, final.current⟩, ?_⟩
  rintro done later e after entries rfl composites answered
  have doneRequested : ∀ step ∈ done, Requested step := fun step member =>
    requested step (List.mem_append_left _ member)
  have laterRequested : ∀ step ∈ later, Requested step := fun step member =>
    requested step (List.mem_append_right _ (List.mem_cons_of_mem _ member))
  obtain ⟨-, reached⟩ := run_related lockstep together doneRequested
  have equal := equal_after_composite reached composites answered
  obtain ⟨-, same⟩ := run_related (fun related step asked =>
    Related.step_requested Raster.eq_simulates related asked) equal laterRequested
  have standard := standard_after requested (s := start settings (.alpha order a)) rfl
  rw [after_append, after_cons] at standard ⊢
  rw [after_append, after_cons, ← same.current]
  exact Raster.sameNumbers_self standard

theorem hidden_colour_removed :
    ((start .default (.alpha .rgba ⟨1, 1, #[#v[9, 8, 7, 0]], rfl⟩)).after
        [.ok (.edit .removeAlpha)]).current.raster.sameNumbers
      ((start .default (.alpha .rgba ⟨1, 1, #[#v[1, 2, 3, 0]], rfl⟩)).after
        [.ok (.edit .removeAlpha)]).current.raster = true := by
  have alike : (Raster.alpha .rgba ⟨1, 1, #[#v[9, 8, 7, 0]], rfl⟩).LooksLike
      (.alpha .rgba ⟨1, 1, #[#v[1, 2, 3, 0]], rfl⟩) := by
    refine .alpha rfl rfl ?_
    intro row col hr hc
    obtain rfl := Nat.lt_one_iff.mp hr
    obtain rfl := Nat.lt_one_iff.mp hc
    have hidden : AlphaOrder.rgba.alphaOf #v[9, 8, 7, 0] = 0 := by decide +kernel
    have hidden' : AlphaOrder.rgba.alphaOf #v[1, 2, 3, 0] = 0 := by decide +kernel
    exact ⟨hidden.trans hidden'.symm, fun visible => absurd hidden visible⟩
  have requested : ∀ step ∈ [(.ok (.edit .removeAlpha) : Result Step)], Requested step := by
    intro step member
    rw [List.mem_singleton.mp member]
    exact .edit _
  exact (hidden_colour_stays_hidden .default alike requested).2 [] [] .removeAlpha _ _ rfl trivial
    rfl

end Session

end RasterEdit
