import RasterEdit.Proofs.Raster.Buffer
import RasterEdit.Proofs.Session.Run

/-!
# What runs produce

Every raster that a session holds or answers fits its layout, and a raster that an edit makes has
the layout and the size that the request predicts from the raster before it.
-/

set_option autoImplicit false

namespace RasterEdit

/-- The buffer of a raster is one that its layout accepts and holds the samples of all pixels. -/
structure Raster.WellFormed (r : Raster) : Prop where
  accepted : r.layout.fault? r.toBlock.element r.toBlock.shape = none
  complete : r.toBlock.patterns.size = r.width * r.height * r.channels
  readable : Raster.ofBlock r.layout r.toBlock = .ok r

theorem Raster.wellFormed (r : Raster) : r.WellFormed where
  accepted := r.fault?_toBlock
  complete := r.size_toBlock
  readable := r.ofBlock_toBlock

/-- What the result of an edit that had something to do is expected to be. -/
def Edit.Predicts (before after : Raster) : Edit → Prop
  | .crop request reduction =>
    (after.layout = before.layout ∧ after.kind = before.kind ∧ after.channels = before.channels) ∧
      request.outputSize before.size.toPair reduction = .ok after.size
  | .scale request reduction _ =>
    after.layout = before.layout ∧
      request.target before.size.toPair reduction = .ok after.size.toPair
  | .rotate request =>
    after.layout = .rgba ∧
      Rotation.canvasSize (.whole before.size.width) (.whole before.size.height)
        (.real request.degrees) = .ok after.size.toPair
  | .flip _ =>
    (after.layout = before.layout ∧ after.kind = before.kind ∧ after.channels = before.channels) ∧
      after.size = before.size
  | .tone wanted =>
    (wanted = .gray ∧ after.layout = .gray8 ∨ wanted = .bitonal ∧ after.layout = .bitonal) ∧
      after.size = before.size
  | .removeAlpha =>
    (before.layout = .abgr ∧ after.layout = .bgr ∨
        (before.layout = .rgba ∨ before.layout = .argb) ∧ after.layout = .rgb) ∧
      after.size = before.size
  | .normalize =>
    before.layout = .custom ∧ after.layout = .rgb ∧ after.size = before.size

namespace Edit

variable {settings : Settings} {before after : Raster} {p : Plan}

private theorem moved_keeps {move : {α : Type} → Grid α → Grid α}
    (moved : after = before.rearrange move) :
    after.layout = before.layout ∧ after.kind = before.kind ∧ after.channels = before.channels := by
  subst moved
  exact ⟨before.layout_rearrange _, before.kind_rearrange _, before.channels_rearrange _⟩

theorem predicts_of_plan {e : Edit} (planned : e.plan before.layout before.size = .ok (some p))
    (made : e.make settings p.size before = .ok after) (layout_eq : after.layout = p.layout)
    (size_eq : after.size = p.size) : e.Predicts before after := by
  have inverted := planned_of_plan planned
  generalize layout : before.layout = l at inverted
  cases inverted with
  | crop asked resolved proper =>
    simp only [make, resolved] at made
    refine ⟨moved_keeps (Except.ok.inj made).symm, ?_⟩
    rw [size_eq, CropRequest.outputSize, resolved]
    rfl
  | @scale _ _ request _ _ target resolved proper standard nonempty =>
    obtain ⟨across, down⟩ := request.target_pos resolved
    refine ⟨layout_eq.trans layout.symm, ?_⟩
    rw [size_eq, Size.toPair_toNat across.le down.le, resolved]
  | rotate turned standard resolved =>
    obtain ⟨width, height, rfl, -⟩ := Rotation.canvasSize_fits resolved
    refine ⟨layout_eq, ?_⟩
    rw [size_eq, resolved]
    rfl
  | flip => exact ⟨moved_keeps (Except.ok.inj made).symm, size_eq⟩
  | @tone _ _ wanted reduced standard =>
    refine ⟨?_, size_eq⟩
    cases wanted with
    | unchanged => exact absurd rfl reduced
    | gray => exact .inl ⟨rfl, layout_eq⟩
    | bitonal => exact .inr ⟨rfl, layout_eq⟩
  | @removeAlpha order =>
    refine ⟨?_, size_eq⟩
    cases order with
    | rgba => exact .inr ⟨.inl layout, layout_eq⟩
    | argb => exact .inr ⟨.inr layout, layout_eq⟩
    | abgr => exact .inl ⟨layout, layout_eq⟩
  | normalize => exact ⟨layout, layout_eq, size_eq⟩

theorem Predicts.isStandard {e : Edit} (predicted : e.Predicts before after)
    (standard : before.layout.isStandard = true) : after.layout.isStandard = true := by
  cases e with
  | crop request reduction => rw [predicted.1.1, standard]
  | scale request reduction highQuality => rw [predicted.1, standard]
  | rotate request => rw [predicted.1]; rfl
  | flip direction => rw [predicted.1.1, standard]
  | tone wanted =>
    obtain ⟨⟨-, layout⟩ | ⟨-, layout⟩, -⟩ := predicted
    · rw [layout]; rfl
    · rw [layout]; rfl
  | removeAlpha =>
    obtain ⟨⟨-, layout⟩ | ⟨-, layout⟩, -⟩ := predicted
    · rw [layout]; rfl
    · rw [layout]; rfl
  | normalize => rw [predicted.2.1]; rfl

end Edit

namespace Session

/-- After any run, the raster at hand fits its layout, and so does the raster that any edit makes of
it, which also has the predicted layout and size and takes its place. -/
theorem produced_wellFormed_as_predicted (settings : Settings) (r : Raster)
    (steps : List (Result Step)) :
    ((start settings r).after steps).current.raster.WellFormed ∧
      ∀ (e : Edit) (after : Raster) (entries : List Journal.Entry),
        (((start settings r).after steps).step (.ok (.edit e))).2 = .ok (.fresh after, entries) →
        after.WellFormed ∧ e.Predicts ((start settings r).after steps).current.raster after ∧
          (((start settings r).after steps).step (.ok (.edit e))).1.current.raster = after := by
  generalize (start settings r).after steps = s
  refine ⟨s.current.raster.wellFormed, ?_⟩
  intro e after entries answered
  obtain ⟨p, planned, made, layout_eq, size_eq, -, stepped⟩ := fresh_planned answered
  refine ⟨after.wellFormed, Edit.predicts_of_plan planned made layout_eq size_eq, ?_⟩
  rw [stepped]
  rfl

theorem produced_flip :
    ∃ after entries,
      ((start .default (.gray ⟨2, 1, #[7, 9], rfl⟩)).step (.ok (.edit (.flip .horizontal)))).2 =
          .ok (.fresh after, entries) ∧
        after.WellFormed ∧ (Edit.flip .horizontal).Predicts (.gray ⟨2, 1, #[7, 9], rfl⟩) after := by
  have produced := (produced_wellFormed_as_predicted .default (.gray ⟨2, 1, #[7, 9], rfl⟩) []).2
    (.flip .horizontal) _ _ rfl
  exact ⟨_, _, rfl, produced.1, produced.2.1⟩

end Session

end RasterEdit
