import RasterEdit.Proofs.Image.Modes
import RasterEdit.Proofs.Session.Run

/-!
# Runs of changes of layout

Storing the picture of a raster in another layout, any number of times, is storing it once in the
last of the layouts, after its picture has been through the modes of the others. Among layouts with
colours no colour changes, and gray pixels come back.
-/

set_option autoImplicit false

namespace RasterEdit

namespace Session

/-- Changes of layout as the steps of a run. -/
def relayoutSteps (layouts : List Layout) : List (Result Step) :=
  layouts.map fun layout => .ok (.relayout layout)

section Steps

variable {s : Session} {p : Picture}
  (shown : s.current.raster.toPicture "raster_to_image" = .ok p)

include shown

theorem step_relayout {layout : Layout} (standard : layout.isStandard = true) :
    ∃ after, Raster.ofPicture layout p = .ok after ∧
      s.step (.ok (.relayout layout)) = (s.replace after, .ok (.fresh after, [])) ∧
      after.layout = layout ∧ after.size = s.current.raster.size ∧
      after.toPicture "raster_to_image" = .ok (p.inMode layout) := by
  obtain ⟨after, stored, layout_eq, size_eq⟩ := Raster.ofPicture_of_standard standard p
  refine ⟨after, stored, ?_, layout_eq, size_eq.trans (Raster.size_of_toPicture shown),
    Raster.toPicture_of_ofPicture standard stored _⟩
  simp only [step, Except.bind, next?, shown, Result.ok_bind, stored]
  rfl

/-- The invariant of a run of changes of layout: the picture that is left has been through the modes
of the layouts so far. -/
theorem run_relayouts {layouts : List Layout}
    (standard : ∀ layout ∈ layouts, layout.isStandard = true) :
    let last := (s.after (relayoutSteps layouts)).current.raster
    (∀ answer ∈ s.run (relayoutSteps layouts), ∃ after, answer = .ok (.fresh after, [])) ∧
      last.layout = layouts.getLastD s.current.raster.layout ∧
      last.size = s.current.raster.size ∧
      last.toPicture "raster_to_image" = .ok (p.inModes layouts) := by
  induction layouts generalizing s p with
  | nil => exact ⟨fun answer member => absurd member List.not_mem_nil, rfl, rfl, shown⟩
  | cons layout layouts ih =>
    rw [List.forall_mem_cons] at standard
    obtain ⟨after, -, taken, layout_eq, size_eq, shownAfter⟩ := step_relayout shown standard.1
    obtain ⟨answers, last_layout, last_size, last_shown⟩ :=
      ih (s := s.replace after) shownAfter standard.2
    have first : s.run (relayoutSteps (layout :: layouts)) =
        (s.step (.ok (.relayout layout))).2 ::
          (s.step (.ok (.relayout layout))).1.run (relayoutSteps layouts) := rfl
    have last : s.after (relayoutSteps (layout :: layouts)) =
        (s.step (.ok (.relayout layout))).1.after (relayoutSteps layouts) := rfl
    rw [first, last, taken]
    refine ⟨?_, ?_, last_size.trans size_eq, last_shown⟩
    · intro answer member
      rcases List.mem_cons.mp member with rfl | later
      · exact ⟨after, rfl⟩
      · exact answers answer later
    · rw [last_layout, List.getLastD_cons]
      exact congrArg layouts.getLastD layout_eq

end Steps

theorem after_relayouts_gray8 (settings : Settings) {layouts : List Layout}
    (coloured : ∀ layout ∈ layouts, layout.isColoured = true) (pixels : Grid UInt8) :
    (∀ answer ∈ (start settings (.gray pixels)).run (relayoutSteps (layouts ++ [.gray8])),
        ∃ after, answer = .ok (.fresh after, [])) ∧
      ((start settings (.gray pixels)).after
        (relayoutSteps (layouts ++ [.gray8]))).current.raster = .gray pixels := by
  have standard : ∀ layout ∈ layouts, layout.isStandard = true :=
    fun layout member => Layout.isStandard_of_coloured (coloured layout member)
  have shown : (start settings (.gray pixels)).current.raster.toPicture "raster_to_image" =
      .ok (.gray pixels) := rfl
  have throughout : ∀ layout ∈ layouts ++ [.gray8], layout.isStandard = true :=
    List.forall_mem_append.mpr ⟨standard, List.forall_mem_singleton.mpr rfl⟩
  refine ⟨(run_relayouts shown throughout).1, ?_⟩
  obtain ⟨-, -, -, last_shown⟩ := run_relayouts shown standard
  obtain ⟨after, stored, taken, -⟩ :=
    step_relayout last_shown (show Layout.gray8.isStandard from rfl)
  obtain rfl := Except.ok.inj stored
  have last : (start settings (.gray pixels)).after (relayoutSteps (layouts ++ [.gray8])) =
      (((start settings (.gray pixels)).after (relayoutSteps layouts)).step
        (.ok (.relayout .gray8))).1 := by
    rw [relayoutSteps, List.map_append, after_append]
    rfl
  rw [last, taken]
  exact congrArg Raster.gray (Picture.toGray_inModes coloured pixels)

/-- A run of changes of layout among the layouts with colours makes a new raster at every step and
keeps red, green and blue of every pixel. It keeps alpha if every layout from the first raster's own
on has it; after a layout without alpha, every layout with alpha has it full. Gray pixels that go
through such a run and are stored as gray again are the first ones, and no step of it fails. -/
theorem relayouts_keep_colours (settings : Settings) {layouts : List Layout}
    (coloured : ∀ layout ∈ layouts, layout.isColoured = true) :
    (∀ r : Raster, r.layout.isColoured = true →
      let last := ((start settings r).after (relayoutSteps layouts)).current.raster
      (∀ answer ∈ (start settings r).run (relayoutSteps layouts),
        ∃ after, answer = .ok (.fresh after, [])) ∧
      last.layout = layouts.getLastD r.layout ∧ last.size = r.size ∧
      ∀ {row col : Nat}, row < r.height → col < r.width →
        (∀ {c : Channel}, c ≠ .alpha → last.canonicalAt row col c = r.canonicalAt row col c) ∧
        ((∀ layout ∈ r.layout :: layouts, layout.hasAlpha = true) →
          last.canonicalAt row col .alpha = r.canonicalAt row col .alpha) ∧
        ((∃ layout ∈ r.layout :: layouts, layout.hasAlpha = false) →
          last.layout.hasAlpha = true → last.canonicalAt row col .alpha = 255)) ∧
    ∀ pixels : Grid UInt8,
      (∀ answer ∈ (start settings (.gray pixels)).run (relayoutSteps (layouts ++ [.gray8])),
        ∃ after, answer = .ok (.fresh after, [])) ∧
      ((start settings (.gray pixels)).after
        (relayoutSteps (layouts ++ [.gray8]))).current.raster = .gray pixels := by
  have standard : ∀ layout ∈ layouts, layout.isStandard = true :=
    fun layout member => Layout.isStandard_of_coloured (coloured layout member)
  constructor
  · intro r colours last
    obtain ⟨p, sized, shown⟩ := Raster.toPicture_of_standard (Layout.isStandard_of_coloured colours)
    have shown := shown "raster_to_image"
    obtain ⟨answers, layout_eq, size_eq, last_shown⟩ :=
      run_relayouts (s := start settings r) shown standard
    have last_coloured : last.layout.isColoured = true := by
      have all : ∀ layout ∈ r.layout :: layouts, layout.isColoured = true :=
        List.forall_mem_cons.mpr ⟨colours, coloured⟩
      rw [layout_eq]
      exact all _ List.getLastD_mem_cons
    refine ⟨answers, layout_eq, size_eq, ?_⟩
    intro row col hr hc
    have rgbRow : row < p.toRgb.height := by rwa [p.sides_toRgb.2, sized]
    have rgbCol : col < p.toRgb.width := by rwa [p.sides_toRgb.1, sized]
    have rgbaRow : row < p.toRgba.height := by rwa [p.sides_toRgba.2, sized]
    have rgbaCol : col < p.toRgba.width := by rwa [p.sides_toRgba.1, sized]
    refine ⟨?_, ?_, ?_⟩
    · intro c chromatic
      rw [Raster.canonicalAt_of_coloured last_shown last_coloured chromatic
          (p.toRgb_inModes coloured) rgbRow rgbCol,
        Raster.canonicalAt_of_coloured shown colours chromatic rfl rgbRow rgbCol]
    · intro alpha
      have last_alpha : last.layout.hasAlpha = true := by
        rw [layout_eq]
        exact alpha _ List.getLastD_mem_cons
      rw [List.forall_mem_cons] at alpha
      rw [Raster.canonicalAt_of_alpha last_shown last_alpha (p.toRgba_inModes alpha.2) rgbaRow
          rgbaCol,
        Raster.canonicalAt_of_alpha shown alpha.1 rfl rgbaRow rgbaCol]
    · intro bare last_alpha
      have solid : (p.inModes layouts).IsOpaque := by
        apply p.isOpaque_inModes coloured
        rw [List.exists_mem_cons_iff] at bare
        rcases bare with first | later
        · exact .inr (Raster.isOpaque_of_bare first shown)
        · exact .inl later
      rw [Picture.IsOpaque, p.toRgb_inModes coloured] at solid
      rw [Raster.canonicalAt_of_alpha last_shown last_alpha solid rgbRow rgbCol, Grid.get_map]
      rfl
  · exact after_relayouts_gray8 settings coloured

theorem relayouts_keep_colours_through_bgr :
    let r : Raster := .alpha .argb (.replicate 2 1 #v[9, 1, 2, 3])
    let last := ((start .default r).after (relayoutSteps [.abgr, .bgr, .rgba])).current.raster
    (∀ layout ∈ [Layout.abgr, .bgr, .rgba], layout.isColoured = true) ∧
      r.layout.isColoured = true ∧ last.layout = .rgba ∧ last.canonicalAt 0 1 .red = 1 ∧
      last.canonicalAt 0 1 .blue = 3 ∧ last.canonicalAt 0 1 .alpha = 255 := by
  intro r last
  have coloured : ∀ layout ∈ [Layout.abgr, .bgr, .rgba], layout.isColoured = true := by decide
  obtain ⟨-, layout_eq, -, pixels⟩ := (relayouts_keep_colours .default coloured).1 r rfl
  have wide : 1 < r.width := by decide
  have high : 0 < r.height := by decide
  obtain ⟨kept, -, full⟩ := pixels high wide
  have red := kept (c := .red) (by decide)
  have blue := kept (c := .blue) (by decide)
  refine ⟨coloured, rfl, layout_eq, red.trans ?_, blue.trans ?_, full ?_ ?_⟩
  · decide +kernel
  · decide +kernel
  · exact ⟨.bgr, by decide, rfl⟩
  · rw [layout_eq]
    rfl

end Session

end RasterEdit
