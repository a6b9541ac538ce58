import RasterEdit.Proofs.Raster.Twin
import RasterEdit.Proofs.Session.Simulation

/-!
# Channel order

A raster in any stored order behaves as its twin in canonical order: the pictures of both are the
same, and every edit takes twins to twins.
-/

set_option autoImplicit false

namespace RasterEdit

/-! ## Edits -/

private theorem flattened_twin (order : AlphaOrder) (pixels : Grid Rgba) :
    (pixels.map fun p => reorder order.withoutAlpha.ofCanonical
        (Colour.flatten (reorder order.toCanonical p))).map
        (reorder order.withoutAlpha.toCanonical) =
      (pixels.map (reorder order.toCanonical)).map fun p =>
        reorder AlphaOrder.rgba.withoutAlpha.ofCanonical
          (Colour.flatten (reorder AlphaOrder.rgba.toCanonical p)) := by
  have stored (p : Rgb) : reorder AlphaOrder.rgba.withoutAlpha.ofCanonical p = p := reorder_rgb p
  rw [Grid.map_map, Grid.map_map]
  simp only [ColourOrder.reorder_toCanonical_ofCanonical, reorder_rgba, stored]

theorem Edit.make_twin (settings : Settings) (size : Size) (r : Raster) (e : Edit) :
    e.make settings size r.twin = (e.make settings size r).map Raster.twin := by
  cases e with
  | crop request reduction =>
    simp only [make, Raster.size_twin]
    cases request.region r.size.toPair reduction with
    | error fault => rfl
    | ok region => exact congrArg Except.ok (r.twin_rearrange (Grid.natural_crop region)).symm
  | scale request reduction highQuality =>
    simp only [make, Raster.toPicture_twin, Raster.layout_twin]
    cases r.toPicture "raster_to_image" with
    | error fault => rfl
    | ok picture => exact (Raster.twin_ofPicture ..).symm
  | rotate request =>
    simp only [make, Raster.toPicture_twin, Raster.size_twin, Raster.isEmpty_twin]
    by_cases empty : (r.isEmpty || size.isEmpty) = true
    · rw [if_pos empty, Raster.blank_rgba]
      exact congrArg Except.ok (Raster.twin_alpha_rgba _).symm
    · rw [if_neg empty]
      cases Turn.samplingOnto r.size.toPair size.toPair request.degrees.radians with
      | error fault => rfl
      | ok sampling =>
        cases r.toPicture "raster_to_image" with
        | error fault => rfl
        | ok picture => exact congrArg Except.ok (Raster.twin_alpha_rgba _).symm
  | flip direction => exact congrArg Except.ok (r.twin_rearrange (Grid.natural_flip direction)).symm
  | tone wanted =>
    simp only [make, Raster.toPicture_twin]
    cases r.toPicture "raster_to_image" with
    | error fault => rfl
    | ok picture => cases wanted <;> rfl
  | removeAlpha =>
    cases r with
    | alpha order pixels =>
      exact congrArg (fun g => Except.ok (Raster.colour .rgb g)) (flattened_twin order pixels).symm
    | _ => rfl
  | normalize =>
    cases r with
    | custom kind axis pixels => exact congrArg Except.ok (Raster.twin_colour_rgb _).symm
    | _ => rfl

theorem Edit.plan_canonical (layout : Layout) (size : Size) (e : Edit) :
    Result.Rel (Option.Rel Plan.Alike) (e.plan layout size) (e.plan layout.canonical size) := by
  cases standard : layout.isStandard with
  | false =>
    rw [Layout.canonical_of_not_standard standard]
    exact .refl Plan.alike_refl _
  | true =>
    have standard' := layout.isStandard_canonical.trans standard
    cases e with
    | crop request reduction =>
      refine .ite (fun _ => .ok .none) fun _ => .bind_same fun region => ?_
      exact .ite (fun _ => .ok .none) fun _ => .ok (.some ⟨rfl, rfl⟩)
    | scale request reduction highQuality =>
      simp only [plan, standard, standard', Bool.not_true, Bool.false_eq_true, ↓reduceIte]
      refine .bind_same fun target => .ite (fun _ => .ok .none) fun _ => ?_
      exact .ite (fun _ => .error _) fun _ => .ok (.some ⟨rfl, rfl⟩)
    | rotate request =>
      simp only [plan, standard, standard', Bool.not_true, Bool.false_eq_true, ↓reduceIte]
      exact .ite (fun _ => .ok .none) fun _ => .bind_same fun canvas => .ok (.some ⟨rfl, rfl⟩)
    | flip direction => exact .ok (.some ⟨rfl, rfl⟩)
    | tone wanted =>
      simp only [plan, standard, standard', Bool.not_true, Bool.false_eq_true, ↓reduceIte]
      exact .ite (fun _ => .ok .none) fun _ => .ok (.some ⟨rfl, rfl⟩)
    | removeAlpha =>
      cases layout with
      | alpha order => exact .ok (.some ⟨rfl, rfl⟩)
      | custom => cases standard
      | _ => exact .ok .none
    | normalize =>
      cases layout with
      | custom => cases standard
      | _ => exact .ok .none

theorem Raster.twin_simulates : Raster.Simulates fun r t => r.twin = t.twin where
  plan := by
    intro r t same e
    have layouts : r.layout.canonical = t.layout.canonical := by
      rw [← r.layout_twin, ← t.layout_twin, same]
    have sizes : r.size = t.size := by
      rw [← r.size_twin, ← t.size_twin, same]
    refine (e.plan_canonical r.layout r.size).meet ?_ fun _ _ _ => Plan.alike_meet
    rw [layouts, sizes]
    exact e.plan_canonical t.layout t.size
  make := by
    intro r t same settings e p q r' t' _ _ alike left right
    have twins := e.make_twin settings p.size r
    rw [same, alike.size_eq, e.make_twin, right, ← alike.size_eq, left] at twins
    exact (Except.ok.inj twins).symm

/-! ## Sessions -/

namespace Session

theorem step_throughPicture (s : Session) :
    s.step (.ok .throughPicture) =
      match s.current.raster.toPicture "raster_to_image" with
      | .error fault => (s, .error fault)
      | .ok p => (s.replace (Raster.adoptPicture p), .ok (.fresh (Raster.adoptPicture p), [])) := by
  simp only [step, Except.bind, next?]
  cases s.current.raster.toPicture "raster_to_image" <;> rfl

theorem Related.step_throughPicture {s t : Session}
    (related : Related (fun r t => r.twin = t.twin) s t) :
    Answers (fun r t => r.twin = t.twin) (s.step (.ok .throughPicture)).2
        (t.step (.ok .throughPicture)).2 ∧
      Related (fun r t => r.twin = t.twin) (s.step (.ok .throughPicture)).1
        (t.step (.ok .throughPicture)).1 := by
  have pictures : t.current.raster.toPicture "raster_to_image" =
      s.current.raster.toPicture "raster_to_image" := by
    rw [← Raster.toPicture_twin _ t.current.raster, ← related.current, Raster.toPicture_twin]
  rw [Session.step_throughPicture, Session.step_throughPicture, pictures]
  cases s.current.raster.toPicture "raster_to_image" with
  | error fault => exact ⟨.error fault, related⟩
  | ok p => exact ⟨.ok (.fresh rfl), related.replace rfl⟩

/-- A run on a raster and the run on its twin give the same failures, keep and replace their rasters
at the same steps, and differ in the order of channels at most. -/
theorem channel_order_never_matters (settings : Settings) {r t : Raster}
    (layout_eq : t.layout = r.layout.canonical) (block_eq : t.toBlock = r.canonical)
    {steps : List (Result Step)}
    (permitted : ∀ step ∈ steps, Requested step ∨ step = .ok .throughPicture) :
    List.Forall₂ (Answers fun a b => a.size = b.size ∧ a.canonical = b.canonical)
        ((start settings r).run steps) ((start settings t).run steps) ∧
      ((start settings r).after steps).current.raster.size =
        ((start settings t).after steps).current.raster.size ∧
      ((start settings r).after steps).current.raster.canonical =
        ((start settings t).after steps).current.raster.canonical := by
  obtain rfl := Raster.eq_twin layout_eq block_eq
  have visible (a b : Raster) (same : a.twin = b.twin) :
      a.size = b.size ∧ a.canonical = b.canonical := by
    constructor
    · rw [← a.size_twin, same, b.size_twin]
    · rw [← a.toBlock_twin, same, b.toBlock_twin]
  have together :
      Related (fun a b => a.twin = b.twin) (start settings r) (start settings r.twin) :=
    ⟨rfl, r.twin_twin.symm⟩
  obtain ⟨answers, final⟩ := run_related (by
    rintro s t related step (requested | rfl)
    · exact related.step_requested Raster.twin_simulates requested
    · exact related.step_throughPicture) together permitted
  obtain ⟨size_eq, canonical_eq⟩ := visible _ _ final.current
  exact ⟨answers.imp fun _ _ alike => alike.mono visible, size_eq, canonical_eq⟩

theorem channel_order_blue_first :
    List.Forall₂ (Answers fun a b => a.size = b.size ∧ a.canonical = b.canonical)
      ((start .default (.colour .bgr ⟨1, 1, #[#v[1, 2, 3]], rfl⟩)).run
        [.ok (.edit (.flip .horizontal)), .ok .throughPicture])
      ((start .default (.colour .rgb ⟨1, 1, #[#v[3, 2, 1]], rfl⟩)).run
        [.ok (.edit (.flip .horizontal)), .ok .throughPicture]) := by
  refine (channel_order_never_matters .default rfl (by decide +kernel) ?_).1
  intro step member
  simp only [List.mem_cons, List.not_mem_nil, or_false] at member
  rcases member with rfl | rfl
  · exact .inl (.edit _)
  · exact .inr rfl

end Session

end RasterEdit
