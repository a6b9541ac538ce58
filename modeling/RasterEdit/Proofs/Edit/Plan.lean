import RasterEdit.Edit.Basic
import RasterEdit.Proofs.Geometry.Canvas
import RasterEdit.Proofs.Image.Resize
import RasterEdit.Proofs.Raster.Movement

/-!
# Plans of edits

What an edit does is decided before it looks at a pixel: whether it fails, whether it has nothing to
do, and which layout and size its result has. `Edit.plan` is that decision, `Edit.permit` the checks
on the planned size, `Edit.make` the work on the pixels, and `Edit.apply_follows` says that an edit is
one after the other. The work of a planned edit never fails and always has the planned layout and
size.
-/

set_option autoImplicit false

namespace RasterEdit

/-- What an edit is about to make, and the names it is logged and accounted under. -/
structure Plan where
  part : String
  operation : String
  layout : Layout
  size : Size

def Tone.layout : Tone → Layout
  | .bitonal => .bitonal
  | _ => .gray8

namespace Edit

/-- The edit's own checks, in their order; nothing is planned if there is nothing to do. -/
def plan (layout : Layout) (size : Size) : Edit → Result (Option Plan)
  | crop request reduction => do
    if request.coversAll then return none
    let region ← request.region size.toPair reduction
    if region.covers size then return none
    return some ⟨"crop", "crop", layout, region.size⟩
  | scale request reduction _ => do
    let target ← request.target size.toPair reduction
    if target = size.toPair then return none
    if !layout.isStandard then throw (.unsupportedLayout layout "scale")
    if size.isEmpty then throw (.geometry .emptySource "scale" size.toPair)
    return some ⟨"scale", "scale", layout, ⟨target.1.toNat, target.2.toNat⟩⟩
  | rotate request => do
    if request.isWholeTurn then return none
    if !layout.isStandard then throw (.unsupportedLayout layout "rotate")
    let canvas ← Rotation.canvasSize (.whole size.width) (.whole size.height) (.real request.degrees)
    return some ⟨"rotate", "rotate", .rgba, ⟨canvas.1.toNat, canvas.2.toNat⟩⟩
  | flip _ => return some ⟨"transpose", "transpose", layout, size⟩
  | tone wanted => do
    if wanted = .unchanged then return none
    if !layout.isStandard then throw (.unsupportedLayout layout "filter")
    return some ⟨"filters", "filter", wanted.layout, size⟩
  | removeAlpha =>
    match layout with
    | .custom => throw (.unsupportedLayout .custom "remove_alpha")
    | .alpha order => return some ⟨"alpha", "remove_alpha", .colour order.withoutAlpha, size⟩
    | _ => return none
  | normalize =>
    match layout with
    | .custom => return some ⟨"normalize", "convert_custom_to_rgb", .rgb, size⟩
    | _ => return none

/-- What is planned for an edit that has something to do, with the checks that it has passed. -/
inductive Planned : Layout → Size → Edit → Plan → Prop where
  | crop {layout : Layout} {size : Size} {request : CropRequest} {reduction : Reduction}
      {region : Region} (asked : request.coversAll = false)
      (resolved : request.region size.toPair reduction = .ok region)
      (proper : region.covers size = false) :
      Planned layout size (.crop request reduction) ⟨"crop", "crop", layout, region.size⟩
  | scale {layout : Layout} {size : Size} {request : ScaleRequest} {reduction : Reduction}
      {highQuality : Bool} {target : Int × Int}
      (resolved : request.target size.toPair reduction = .ok target)
      (proper : target ≠ size.toPair) (standard : layout.isStandard = true)
      (nonempty : size.isEmpty = false) :
      Planned layout size (.scale request reduction highQuality)
        ⟨"scale", "scale", layout, ⟨target.1.toNat, target.2.toNat⟩⟩
  | rotate {layout : Layout} {size : Size} {request : RotateRequest} {canvas : Int × Int}
      (turned : request.isWholeTurn = false) (standard : layout.isStandard = true)
      (resolved : Rotation.canvasSize (.whole size.width) (.whole size.height)
        (.real request.degrees) = .ok canvas) :
      Planned layout size (.rotate request)
        ⟨"rotate", "rotate", .rgba, ⟨canvas.1.toNat, canvas.2.toNat⟩⟩
  | flip {layout : Layout} {size : Size} {direction : Flip} :
      Planned layout size (.flip direction) ⟨"transpose", "transpose", layout, size⟩
  | tone {layout : Layout} {size : Size} {wanted : Tone} (reduced : wanted ≠ .unchanged)
      (standard : layout.isStandard = true) :
      Planned layout size (.tone wanted) ⟨"filters", "filter", wanted.layout, size⟩
  | removeAlpha {order : AlphaOrder} {size : Size} :
      Planned (.alpha order) size .removeAlpha
        ⟨"alpha", "remove_alpha", .colour order.withoutAlpha, size⟩
  | normalize {size : Size} :
      Planned .custom size .normalize ⟨"normalize", "convert_custom_to_rgb", .rgb, size⟩

theorem planned_of_plan {e : Edit} {layout : Layout} {size : Size} {p : Plan}
    (planned : e.plan layout size = .ok (some p)) : Planned layout size e p := by
  cases e with
  | crop request reduction =>
    simp only [plan] at planned
    split at planned
    · cases planned
    · next asked =>
      obtain ⟨region, resolved, planned⟩ := Result.bind_eq_ok.mp planned
      split at planned
      · cases planned
      · next proper =>
        cases planned
        exact .crop (Bool.not_eq_true _ ▸ asked) resolved (Bool.not_eq_true _ ▸ proper)
  | scale request reduction highQuality =>
    simp only [plan] at planned
    obtain ⟨target, resolved, planned⟩ := Result.bind_eq_ok.mp planned
    split at planned
    · cases planned
    · next proper =>
      cases standard : layout.isStandard with
      | false => simp [standard] at planned
      | true =>
        cases nonempty : size.isEmpty with
        | true => simp [standard, nonempty] at planned
        | false =>
          simp only [standard, nonempty] at planned
          cases planned
          exact .scale resolved proper standard nonempty
  | rotate request =>
    simp only [plan] at planned
    split at planned
    · cases planned
    · next turned =>
      cases standard : layout.isStandard with
      | false => simp [standard] at planned
      | true =>
        simp only [standard] at planned
        obtain ⟨canvas, resolved, planned⟩ := Result.bind_eq_ok.mp planned
        cases planned
        exact .rotate (Bool.not_eq_true _ ▸ turned) standard resolved
  | flip direction =>
    cases planned
    exact .flip
  | tone wanted =>
    simp only [plan] at planned
    split at planned
    · cases planned
    · next reduced =>
      cases standard : layout.isStandard with
      | false => simp [standard] at planned
      | true =>
        simp only [standard] at planned
        cases planned
        exact .tone reduced standard
  | removeAlpha =>
    cases layout with
    | alpha order =>
      cases planned
      exact .removeAlpha
    | _ => cases planned
  | normalize =>
    cases layout with
    | custom =>
      cases planned
      exact .normalize
    | _ => cases planned

theorem plan_of_planned {e : Edit} {layout : Layout} {size : Size} {p : Plan}
    (planned : Planned layout size e p) : e.plan layout size = .ok (some p) := by
  cases planned with
  | crop asked resolved proper =>
    simp only [plan, asked, resolved, Result.ok_bind, proper]
    rfl
  | scale resolved proper standard nonempty =>
    simp only [plan, resolved, Result.ok_bind, proper, standard, nonempty]
    rfl
  | rotate turned standard resolved =>
    simp only [plan, turned, standard, resolved]
    rfl
  | flip => rfl
  | tone reduced standard =>
    simp only [plan, reduced, standard]
    rfl
  | removeAlpha => rfl
  | normalize => rfl

/-- What an edit needs of the size of its result besides the budget: a resized picture has sides
that are words of 32 bits. -/
def checkSides (size : Size) : Edit → Result Unit
  | scale .. => Picture.checkSides size
  | _ => .ok ()

/-- The checks between a plan and its work: first the output budget, then the sides. -/
def permit (settings : Settings) (p : Plan) (e : Edit) : Result Unit := do
  Budget.check settings p.operation p.size.toPair
  e.checkSides p.size

/-- The work of an edit that is planned to end in the given size. -/
def make (settings : Settings) (size : Size) (r : Raster) : Edit → Result Raster
  | crop request reduction => do
    return r.rearrange (Grid.crop (← request.region r.size.toPair reduction))
  | scale _ _ highQuality => do
    let quality : Picture.Quality := if highQuality then .fine settings.reducingGap else .fast
    let picture ← r.toPicture "raster_to_image"
    Raster.ofPicture r.layout (picture.resampled quality size.width size.height)
  | rotate request => do
    if r.isEmpty || size.isEmpty then Raster.blank size.width size.height .rgba
    else
      let sampling ← Turn.samplingOnto r.size.toPair size.toPair request.degrees.radians
      let picture ← r.toPicture "raster_to_image"
      return .alpha .rgba (Turn.renderStraight sampling size.width size.height picture.toRgba)
  | flip direction => .ok (r.rearrange (Grid.flip direction))
  | tone wanted => do
    let luma := (← r.toPicture "raster_to_image").grayOverBlack
    match wanted with
    | .bitonal => return .bitonal (luma.map fun v => settings.bitonalThreshold ≤ v.toNat)
    | _ => return .gray luma
  | removeAlpha =>
    match r with
    | .alpha order pixels =>
      .ok (.colour order.withoutAlpha (pixels.map fun p =>
        reorder order.withoutAlpha.ofCanonical (Colour.flatten (reorder order.toCanonical p))))
    | other => .ok other
  | normalize =>
    match r with
    | .custom kind _ pixels =>
      .ok (.colour .rgb (pixels.map fun p => Colour.ofChannels (p.map (Depth.byte kind))))
    | other => .ok other

/-- How an edit carries out what was planned for it. -/
def Follows (settings : Settings) (r : Raster) (e : Edit) : Result (Option Plan) → Prop
  | .error fault => e.apply settings r = .error fault
  | .ok none => ∃ note : Option Journal.Entry,
      e.apply settings r = .ok (.unchanged note) ∧
        ∀ entry ∈ note, ∃ part text, entry = .idle part text
  | .ok (some p) => ∃ after text,
      e.make settings p.size r = .ok after ∧ after.layout = p.layout ∧ after.size = p.size ∧
        e.apply settings r = (e.permit settings p >>= fun _ =>
          .ok (.produced after (.completed p.part p.operation r.size after.size text)))

end Edit

/-! ## One operator at a time -/

section Produce

variable {settings : Settings} {part operation text : String} {before after : Raster}
  {planned : Int × Int} {make : Unit → Result Raster}

/-- Work that checks something before it makes its raster. -/
theorem produce_checked {checked : Result Unit}
    (made : make () = (checked >>= fun _ => .ok after)) :
    produce settings part operation before planned text make =
      ((Budget.check settings operation planned >>= fun _ => checked) >>= fun _ =>
        .ok (.produced after (.completed part operation before.size after.size text))) := by
  simp only [produce, made]
  cases Budget.check settings operation planned with
  | error fault => rfl
  | ok _ => cases checked <;> rfl

theorem produce_eq (made : make () = .ok after) :
    produce settings part operation before planned text make =
      (Budget.check settings operation planned >>= fun _ =>
        .ok (.produced after (.completed part operation before.size after.size text))) := by
  simp only [produce, made]
  rfl

end Produce

theorem ScaleRequest.target_pos {request : ScaleRequest} {source target : Int × Int}
    {reduction : Reduction} (resolved : request.target source reduction = .ok target) :
    0 < target.1 ∧ 0 < target.2 := by
  simp only [ScaleRequest.target] at resolved
  split at resolved
  · cases resolved
  · obtain ⟨unchecked, -, resolved⟩ := Result.bind_eq_ok.mp resolved
    split at resolved
    · cases resolved
    · next positive =>
      cases resolved
      omega

theorem Raster.blank_rgba (width height : Nat) :
    Raster.blank width height .rgba =
      .ok (.alpha .rgba (.replicate width height (Vector.replicate 4 0))) := by
  have natural : ¬((width : Int) < 0 ∨ (height : Int) < 0) := by omega
  simp [Raster.blank, Raster.blankOf, natural]

theorem isEmpty_natCast (r : Raster) (width height : Nat) :
    (r.isEmpty || ((width : Int) == 0) || ((height : Int) == 0)) =
      (r.isEmpty || (⟨width, height⟩ : Size).isEmpty) := by
  have cast (n : Nat) : ((n : Int) == 0) = (n == 0) := by
    rw [Bool.eq_iff_iff]
    simp
  rw [Size.isEmpty, cast, cast, Bool.or_assoc]

theorem Size.toPair_toNat {pair : Int × Int} (across : 0 ≤ pair.1) (down : 0 ≤ pair.2) :
    (⟨pair.1.toNat, pair.2.toNat⟩ : Size).toPair = pair := by
  rw [Size.toPair, Int.toNat_of_nonneg across, Int.toNat_of_nonneg down]

namespace Edit

variable {settings : Settings} {r : Raster}

theorem follows_silent {e : Edit} (applied : e.apply settings r = .ok (.unchanged none)) :
    e.Follows settings r (.ok none) :=
  ⟨none, applied, nofun⟩

theorem follows_idle {e : Edit} {part text : String}
    (applied : e.apply settings r = .ok (.unchanged (some (.idle part text)))) :
    e.Follows settings r (.ok none) := by
  refine ⟨some (.idle part text), applied, ?_⟩
  intro entry member
  cases member
  exact ⟨part, text, rfl⟩

theorem follows_produce {e : Edit} {p : Plan} (after : Raster) {text : String}
    {make : Unit → Result Raster}
    (applied : e.apply settings r =
      produce settings p.part p.operation r p.size.toPair text make)
    (same : make () = (e.checkSides p.size >>= fun _ => .ok after))
    (made : e.make settings p.size r = .ok after)
    (layout_eq : after.layout = p.layout) (size_eq : after.size = p.size) :
    e.Follows settings r (.ok (some p)) :=
  ⟨after, text, made, layout_eq, size_eq, applied.trans (produce_checked same)⟩

theorem crop_follows (request : CropRequest) (reduction : Reduction) :
    (crop request reduction).Follows settings r
      ((crop request reduction).plan r.layout r.size) := by
  simp only [plan]
  split
  · next covers =>
    apply follows_idle
    simp only [apply, Raster.crop, covers, ↓reduceIte]
    rfl
  · next proper =>
    cases resolved : request.region r.size.toPair reduction with
    | error fault =>
      simp only [Follows, apply, Raster.crop, proper, resolved]
      rfl
    | ok region =>
      simp only [Result.ok_bind]
      split
      · next whole =>
        apply follows_idle
        simp only [apply, Raster.crop, proper, resolved, Result.ok_bind, whole, ↓reduceIte]
        rfl
      · next smaller =>
        have within := CropRequest.region_isWithin resolved
        apply follows_produce (r.rearrange (Grid.crop region))
        · simp only [apply, Raster.crop, proper, resolved, Result.ok_bind, smaller, ↓reduceIte,
            Bool.false_eq_true]
          rfl
        · rfl
        · simp only [make, resolved]
          rfl
        · exact r.layout_rearrange _
        · exact Raster.size_rearrange_crop within

theorem scale_follows (request : ScaleRequest) (reduction : Reduction) (highQuality : Bool) :
    (scale request reduction highQuality).Follows settings r
      ((scale request reduction highQuality).plan r.layout r.size) := by
  simp only [plan]
  cases resolved : request.target r.size.toPair reduction with
  | error fault =>
    simp only [Follows, apply, Raster.scale, resolved]
    rfl
  | ok target =>
    simp only [Result.ok_bind]
    split
    · next reached =>
      apply follows_idle
      simp only [apply, Raster.scale, resolved, Result.ok_bind, reached, ↓reduceIte]
      rfl
    · next other =>
      cases standard : r.layout.isStandard with
      | false =>
        simp only [Follows, apply, Raster.scale, resolved, Result.ok_bind, other, standard]
        rfl
      | true =>
        cases empty : r.size.isEmpty with
        | true =>
          simp only [Follows, apply, Raster.scale, resolved, Result.ok_bind, other, standard,
            Raster.isEmpty, empty]
          rfl
        | false =>
          obtain ⟨picture, -, pictured⟩ := Raster.toPicture_of_standard standard
          obtain ⟨across, down⟩ := request.target_pos resolved
          obtain ⟨after, taken, layout_eq, size_eq⟩ := Raster.ofPicture_of_standard standard
            (picture.resampled (if highQuality then .fine settings.reducingGap else .fast)
              target.1.toNat target.2.toNat)
          apply follows_produce after
          · simp only [apply, Raster.scale, resolved, Result.ok_bind, other, standard,
              Raster.isEmpty, empty, Bool.not_true, Bool.false_eq_true, ↓reduceIte]
            rw [Size.toPair_toNat across.le down.le]
          · simp only [pictured, Result.ok_bind, Picture.resize, checkSides]
            cases Picture.checkSides ⟨target.1.toNat, target.2.toNat⟩ with
            | error fault => rfl
            | ok _ => exact taken
          · simp only [make, pictured, Result.ok_bind]
            exact taken
          · exact layout_eq
          · rw [size_eq, Picture.size_resampled]

theorem rotate_follows (request : RotateRequest) :
    (rotate request).Follows settings r ((rotate request).plan r.layout r.size) := by
  simp only [plan]
  split
  · next whole =>
    apply follows_idle
    simp only [apply, Raster.rotate, whole, ↓reduceIte]
    rfl
  · next turned =>
    cases standard : r.layout.isStandard with
    | false =>
      simp only [Follows, apply, Raster.rotate, turned, standard]
      rfl
    | true =>
      cases resolved : Rotation.canvasSize (.whole r.size.width) (.whole r.size.height)
          (.real request.degrees) with
      | error fault =>
        simp only [Follows, apply, Raster.rotate, turned, standard, Size.toPair, resolved]
        rfl
      | ok canvas =>
        obtain ⟨picture, -, pictured⟩ := Raster.toPicture_of_standard standard
        obtain ⟨sampling, sampled⟩ := Turn.samplingOnto_total r.size resolved
        simp only [Size.toPair] at sampled
        obtain ⟨width, height, rfl, -⟩ := Rotation.canvasSize_fits resolved
        apply follows_produce (if r.isEmpty || (⟨width, height⟩ : Size).isEmpty then
            .alpha .rgba (.replicate width height (Vector.replicate 4 0))
          else .alpha .rgba (Turn.renderStraight sampling width height picture.toRgba))
        · simp only [apply, Raster.rotate, turned, standard, Size.toPair, resolved, Result.ok_bind,
            Bool.not_true, Bool.false_eq_true, ↓reduceIte]
          rfl
        · rw [← isEmpty_natCast]
          split
          · exact Raster.blank_rgba width height
          · simp only [sampled, pictured, Result.ok_bind]
            rfl
        · simp only [make, Int.toNat_natCast]
          split
          · exact Raster.blank_rgba width height
          · simp only [Size.toPair, sampled, pictured, Result.ok_bind]
            rfl
        · split <;> rfl
        · split <;> rfl

theorem flip_follows (direction : Flip) :
    (flip direction).Follows settings r ((flip direction).plan r.layout r.size) := by
  apply follows_produce (r.rearrange (Grid.flip direction))
  · simp only [apply, Raster.flip]
    rfl
  · rfl
  · rfl
  · exact r.layout_rearrange _
  · exact r.size_rearrange_flip direction

theorem tone_follows (wanted : Tone) :
    (tone wanted).Follows settings r ((tone wanted).plan r.layout r.size) := by
  simp only [plan]
  split
  · next kept =>
    apply follows_silent
    simp only [apply, Raster.reduceTones, kept, ↓reduceIte]
    rfl
  · next reduced =>
    cases standard : r.layout.isStandard with
    | false =>
      simp only [Follows, apply, Raster.reduceTones, reduced, standard]
      rfl
    | true =>
      obtain ⟨picture, size_eq, pictured⟩ := Raster.toPicture_of_standard standard
      have sides :
          (⟨picture.grayOverBlack.width, picture.grayOverBlack.height⟩ : Size) = r.size := by
        rw [← size_eq]
        cases picture <;> rfl
      cases wanted with
      | unchanged => exact absurd rfl reduced
      | gray =>
        apply follows_produce (.gray picture.grayOverBlack)
        · simp only [apply, Raster.reduceTones, reduced, standard, Bool.not_true,
            Bool.false_eq_true, ↓reduceIte]
          rfl
        · simp only [pictured]
          rfl
        · simp only [make, pictured]
          rfl
        · rfl
        · exact sides
      | bitonal =>
        apply follows_produce
          (.bitonal (picture.grayOverBlack.map fun v => settings.bitonalThreshold ≤ v.toNat))
        · simp only [apply, Raster.reduceTones, reduced, standard, Bool.not_true,
            Bool.false_eq_true, ↓reduceIte]
          rfl
        · simp only [pictured]
          rfl
        · simp only [make, pictured]
          rfl
        · rfl
        · exact sides

theorem removeAlpha_follows :
    removeAlpha.Follows settings r (removeAlpha.plan r.layout r.size) := by
  cases r with
  | custom kind axis pixels => rfl
  | alpha order pixels =>
    apply follows_produce
    · simp only [apply, Raster.removeAlpha]
      rfl
    · rfl
    · rfl
    · rfl
    · rfl
  | _ => exact follows_silent rfl

theorem normalize_follows :
    normalize.Follows settings r (normalize.plan r.layout r.size) := by
  cases r with
  | custom kind axis pixels =>
    apply follows_produce
    · simp only [apply, Raster.normalize]
      rfl
    · rfl
    · rfl
    · rfl
    · rfl
  | _ => exact follows_silent rfl

/-- Every edit is its plan, then the checks of the planned size, then its work. -/
theorem apply_follows (settings : Settings) (r : Raster) (e : Edit) :
    e.Follows settings r (e.plan r.layout r.size) := by
  cases e with
  | crop request reduction => exact crop_follows request reduction
  | scale request reduction highQuality => exact scale_follows request reduction highQuality
  | rotate request => exact rotate_follows request
  | flip direction => exact flip_follows direction
  | tone wanted => exact tone_follows wanted
  | removeAlpha => exact removeAlpha_follows
  | normalize => exact normalize_follows

/-- The work of a plan never fails and ends in the planned layout and size. -/
theorem make_of_plan (settings : Settings) {r : Raster} {e : Edit} {p : Plan}
    (planned : e.plan r.layout r.size = .ok (some p)) :
    ∃ after, e.make settings p.size r = .ok after ∧ after.layout = p.layout ∧
      after.size = p.size := by
  have follows := apply_follows settings r e
  rw [planned] at follows
  obtain ⟨after, text, made, layout_eq, size_eq, -⟩ := follows
  exact ⟨after, made, layout_eq, size_eq⟩

end Edit

end RasterEdit
