import RasterEdit.Proofs.Request.Expressible

/-!
# Announced failures of edits

The edits that depend on lengths announce their failures exactly as far as their requests can be
expressed in binary64, and a scale as far as the sides of its target are words of 32 bits, if it
comes to draw it. Rotations always announce theirs.
-/

set_option autoImplicit false

namespace RasterEdit

open Result Failure

theorem Budget.check_raises (settings : Settings) (operation : String) (size : Int × Int) :
    Raises Announced (Budget.check settings operation size) := by
  have limited : Raises Announced (Budget.limit settings none) := by
    unfold Budget.limit Settings.outputLimit
    refine .ite (fun _ => ?_) fun _ => raises_ok _
    split
    · exact raises_error .unconfigured
    · exact raises_ok _
  refine limited.bind fun bound => ?_
  exact .ite (fun _ => raises_error (.raster rfl)) fun _ => raises_ok _

namespace Edit

variable {settings : Settings} {r : Raster} {e : Edit}

/-- The output budget announces its refusals, and no other check of the planned size announces
its own. -/
theorem permit_raises {p : Plan} : Raises Announced (e.permit settings p) ↔
    (Budget.check settings p.operation p.size.toPair = .ok () →
      Succeeds (e.checkSides p.size)) := by
  unfold permit
  have announced := Budget.check_raises settings p.operation p.size.toPair
  cases checked : Budget.check settings p.operation p.size.toPair with
  | error fault => exact iff_of_true (raises_error (announced.of_error fault checked)) nofun
  | ok _ =>
    rw [ok_bind, raises_announced_iff (e.checkSides_stray p.size)]
    exact ⟨fun succeeds _ => succeeds, fun fits => fits rfl⟩

/-- Work on pixels adds no failures to those of its plan and of the checks of the planned size. -/
theorem apply_raises : Raises Announced (e.apply settings r) ↔
    Raises Announced (e.plan r.layout r.size) ∧
      ∀ p, e.plan r.layout r.size = .ok (some p) → Raises Announced (e.permit settings p) := by
  have follows := apply_follows settings r e
  cases planned : e.plan r.layout r.size with
  | error fault =>
    rw [planned] at follows
    rw [show e.apply settings r = .error fault from follows]
    exact (raises_error_iff.trans raises_error_iff.symm).trans (and_iff_left nofun).symm
  | ok decision =>
    rw [planned] at follows
    refine Iff.trans ?_ (and_iff_right (raises_ok decision)).symm
    cases decision with
    | none =>
      obtain ⟨note, applied, -⟩ := follows
      rw [applied]
      exact iff_of_true (raises_ok _) nofun
    | some p =>
      obtain ⟨after, text, -, -, -, applied⟩ := follows
      rw [applied]
      refine (raises_bind_iff fun _ => raises_ok _).trans ⟨?_, fun raises => raises p rfl⟩
      intro raises q same
      cases same
      exact raises

/-- Edits that ask nothing of the planned size announce what they plan. -/
theorem apply_raises_of_plan (unchecked : ∀ size, e.checkSides size = .ok ()) :
    Raises Announced (e.apply settings r) ↔ Raises Announced (e.plan r.layout r.size) := by
  refine apply_raises.trans (and_iff_left fun p _ => permit_raises.mpr fun _ => ?_)
  rw [unchecked]
  exact succeeds_ok ()

end Edit

/-- The target of a scale can be drawn: as far as a raster is resized to it, its sides are words of
32 bits. -/
def ScaleRequest.Drawable (request : ScaleRequest) (settings : Settings) (r : Raster)
    (reduction : Reduction) : Prop :=
  ∀ target, request.target r.size.toPair reduction = .ok target →
    r.layout.isStandard = true → r.isEmpty = false →
      Budget.check settings "scale" target = .ok () → target.1 < 2 ^ 31 ∧ target.2 < 2 ^ 31

section Sides

variable {settings : Settings} {r : Raster} (narrow : r.width ≤ 2 ^ 20) (low : r.height ≤ 2 ^ 20)

include narrow low

theorem Raster.crop_raises {request : CropRequest} (accepted : request.Accepted)
    (reduction : Reduction) :
    Raises Announced (r.crop settings request reduction) ↔ request.Expressible reduction := by
  refine (Edit.apply_raises_of_plan (e := .crop request reduction) fun _ => rfl).trans ?_
  rw [← accepted.region_raises narrow low reduction]
  simp only [Edit.plan]
  cases covers : request.coversAll with
  | true =>
    refine iff_of_true (raises_ok _) ?_
    rw [accepted.region_raises narrow low reduction]
    simp only [CropRequest.coversAll, Bool.or_eq_true, Bool.and_eq_true, beq_iff_eq] at covers
    exact covers.imp_right fun whole => .inl whole.1.1.1.1
  | false =>
    simp only [Bool.false_eq_true, ↓reduceIte]
    exact raises_bind_iff fun region => .ite (fun _ => raises_ok _) fun _ => raises_ok _

/-- A scale announces the failures of its plan exactly if its request can be expressed. -/
theorem Edit.scale_plan_raises {request : ScaleRequest} (accepted : request.Accepted)
    (reduction : Reduction) (highQuality : Bool) :
    Raises Announced ((scale request reduction highQuality).plan r.layout r.size) ↔
      request.Expressible r.size reduction := by
  rw [← accepted.target_raises narrow low reduction]
  refine raises_bind_iff fun target => ?_
  exact .ite (fun _ => raises_ok _) fun _ =>
    .guard (.raster rfl) (.guard (.raster rfl) (raises_ok _))

theorem Edit.scale_permit_raises {request : ScaleRequest} (reduction : Reduction)
    (highQuality : Bool) :
    (∀ p, (scale request reduction highQuality).plan r.layout r.size = .ok (some p) →
        Raises Announced ((scale request reduction highQuality).permit settings p)) ↔
      request.Drawable settings r reduction := by
  constructor
  · intro permitted target resolved standard nonempty admitted
    by_cases reached : target = r.size.toPair
    · have width : target.1 = (r.width : Int) := congrArg Prod.fst reached
      have height : target.2 = (r.height : Int) := congrArg Prod.snd reached
      omega
    · obtain ⟨across, down⟩ := request.target_pos resolved
      have fits := permit_raises.mp (permitted _
        (plan_of_planned (.scale resolved reached standard nonempty)))
      rw [Size.toPair_toNat across.le down.le] at fits
      have sides : target.1.toNat < 2 ^ 31 ∧ target.2.toNat < 2 ^ 31 :=
        Picture.checkSides_succeeds.mp (fits admitted)
      omega
  · intro drawable p planned
    refine permit_raises.mpr fun admitted => ?_
    generalize layout_eq : r.layout = layout at planned
    cases planned_of_plan planned with
    | @scale _ _ _ _ _ target resolved proper standard nonempty =>
      obtain ⟨across, down⟩ := request.target_pos resolved
      rw [Size.toPair_toNat across.le down.le] at admitted
      have sides := drawable target resolved (layout_eq ▸ standard) nonempty admitted
      have short : target.1.toNat < 2 ^ 31 ∧ target.2.toNat < 2 ^ 31 := by omega
      exact Picture.checkSides_succeeds.mpr short

theorem Raster.scale_raises {request : ScaleRequest} (accepted : request.Accepted)
    (reduction : Reduction) (highQuality : Bool) :
    Raises Announced (r.scale settings request reduction highQuality) ↔
      request.Expressible r.size reduction ∧ request.Drawable settings r reduction :=
  (Edit.apply_raises (e := .scale request reduction highQuality)).trans <|
    and_congr (Edit.scale_plan_raises narrow low accepted reduction highQuality)
      (Edit.scale_permit_raises narrow low reduction highQuality)

theorem Raster.rotate_raises {request : RotateRequest}
    (finite : request.degrees.isFinite = true) :
    Raises Announced (r.rotate settings request) := by
  refine (Edit.apply_raises_of_plan (e := .rotate request) fun _ => rfl).mpr ?_
  obtain ⟨canvas, resolved⟩ := Rotation.canvasSize_succeeds (by decide) narrow low finite
  simp only [Edit.plan]
  refine .ite (fun _ => raises_ok _) fun _ => .guard (.raster rfl) ?_
  have sized : Rotation.canvasSize (.whole r.size.width) (.whole r.size.height)
      (.real request.degrees) = .ok canvas := resolved
  rw [sized]
  exact raises_ok _

end Sides

/-- On rasters with sides up to `2 ^ 20`, resolving an accepted crop or scale request fails as
announced exactly if binary64 can express the request, and so does carrying it out, where the target
of a scale has to be one that can be drawn as well. Carrying out an accepted rotation always fails
as announced. -/
theorem Raster.announced_iff_expressible (settings : Settings) (r : Raster)
    (narrow : r.width ≤ 2 ^ 20) (low : r.height ≤ 2 ^ 20) :
    (∀ (fields : Fields) (request : CropRequest) (reduction : Reduction),
      CropRequest.ofFields fields = .ok request →
        (Raises Announced (request.region r.size.toPair reduction) ↔
            request.Expressible reduction) ∧
          (Raises Announced (r.crop settings request reduction) ↔
            request.Expressible reduction)) ∧
      (∀ (fields : Fields) (request : ScaleRequest) (reduction : Reduction) (highQuality : Bool),
        ScaleRequest.ofFields fields = .ok request →
          (Raises Announced (request.target r.size.toPair reduction) ↔
              request.Expressible r.size reduction) ∧
            (Raises Announced (r.scale settings request reduction highQuality) ↔
              request.Expressible r.size reduction ∧ request.Drawable settings r reduction)) ∧
      ∀ (fields : Fields) (request : RotateRequest), RotateRequest.ofFields fields = .ok request →
        Raises Announced (r.rotate settings request) := by
  refine ⟨?_, ?_, ?_⟩
  · intro fields request reduction read
    have accepted := CropRequest.accepted read
    exact ⟨accepted.region_raises narrow low reduction, crop_raises narrow low accepted reduction⟩
  · intro fields request reduction highQuality read
    have accepted := ScaleRequest.accepted read
    exact ⟨accepted.target_raises narrow low reduction,
      scale_raises narrow low accepted reduction highQuality⟩
  · intro fields request read
    exact rotate_raises narrow low (RotateRequest.isFinite_of_accepted read)

theorem Raster.announced_turned_crop :
    (gray (.replicate 3 2 0)).width ≤ 2 ^ 20 ∧ (gray (.replicate 3 2 0)).height ≤ 2 ^ 20 ∧
      ∃ request, CropRequest.ofFields [("width", .whole 2), ("height", .whole 1)] = .ok request ∧
        Raises Announced ((gray (.replicate 3 2 0)).crop Settings.default request ⟨1⟩) := by
  have narrow : (gray (.replicate 3 2 0)).width ≤ 2 ^ 20 := by decide
  have low : (gray (.replicate 3 2 0)).height ≤ 2 ^ 20 := by decide
  obtain ⟨crops, -, -⟩ := announced_iff_expressible Settings.default _ narrow low
  refine ⟨narrow, low, _, rfl, ?_⟩
  refine (crops [("width", .whole 2), ("height", .whole 1)] _ ⟨1⟩ rfl).2.mpr ?_
  exact .inr (.inr ⟨by decide, by decide⟩)

/-- A scale that can be expressed fails unannounced if its target is too wide to be drawn. -/
example : (Raster.gray (.replicate 1 1 0)).scale .default
    ⟨.fill, some (.whole 2147483648), some (.whole 1), none⟩ .none false =
      .error (.conversion .aboveShort) := rfl

set_option maxRecDepth 8000 in
/-- An infinite width and height pass the checks of a crop, but are not cut off at the edges. -/
theorem Raster.infinite_crop_escapes :
    ∃ request, CropRequest.ofFields [("unit", .text "pixels"),
        ("width", .real (Binary.infinity false)), ("height", .real (Binary.infinity false))] =
          .ok request ∧
      request.region (3, 2) .none = .error (.conversion .infinityToInteger) ∧
      (gray (.replicate 3 2 0)).crop Settings.default request .none =
        .error (.conversion .infinityToInteger) ∧
      ¬ Announced (.conversion .infinityToInteger) := by
  exact ⟨_, rfl, rfl, rfl, Stray.conversion.not_announced⟩

end RasterEdit
