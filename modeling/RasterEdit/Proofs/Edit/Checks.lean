import RasterEdit.Proofs.Edit.Plan

/-!
# Failures of the own checks

The checks that an edit makes before it turns to the output budget fail in five ways. None of them
is a failure of the budget, so a refused allocation or a missing limit always comes from the budget.
Behind the budget only sides that are too long are refused.
-/

set_option autoImplicit false

namespace RasterEdit

/-- The failures of geometry, layouts, conversions and field checks. -/
inductive Failure.OwnCheck : Failure → Prop where
  | geometry {cause : GeometryCause} {operation : Option String} {size : Option (Int × Int)} :
      OwnCheck (.geometry cause operation size)
  | unsupportedLayout {layout : Layout} {operation : Option String} :
      OwnCheck (.unsupportedLayout layout operation)
  | conversion {fault : ConversionFault} : OwnCheck (.conversion fault)
  | invalid {model : String} {errors : List FieldError} : OwnCheck (.invalid model errors)
  | missingTarget {mode field : String} : OwnCheck (.missingTarget mode field)

/-- Those of them that no edit announces: a number without a counterpart in another kind, and a
missing target. -/
inductive Failure.Stray : Failure → Prop where
  | conversion {fault : ConversionFault} : Stray (.conversion fault)
  | missingTarget {mode field : String} : Stray (.missingTarget mode field)

theorem Failure.Stray.ownCheck {fault : Failure} (stray : fault.Stray) : fault.OwnCheck := by
  cases stray with
  | conversion => exact .conversion
  | missingTarget => exact .missingTarget

open Result Failure

/-! ## Numbers -/

theorem realOfInt_raises (n : Int) : Raises Stray (realOfInt n) :=
  .ite (fun _ => raises_ok _) fun _ => raises_error .conversion

theorem realOfFraction_raises (n d : Int) : Raises Stray (realOfFraction n d) :=
  .ite (fun _ => raises_ok _) fun _ => raises_error .conversion

theorem shortWord_raises (n : Int) :
    Raises (fun fault => ∃ cause, fault = .conversion cause) (shortWord n) :=
  .ite (fun _ => raises_error ⟨_, rfl⟩) fun _ => .ite (fun _ => raises_error ⟨_, rfl⟩)
    fun _ => .ite (fun _ => raises_error ⟨_, rfl⟩) fun _ => raises_ok n

theorem integral_raises (reading : Real64 → Option Int) (x : Real64) :
    Raises Stray (integral reading x) := by
  unfold integral
  split
  · exact raises_ok _
  · exact raises_error .conversion

theorem roundHalfAway_raises (x : Real64) : Raises Stray (roundHalfAway x) := by
  refine (integral_raises ..).bind ?_
  intro magnitude
  split <;> exact raises_ok _

theorem Number.toReal_raises (x : Number) : Raises Stray x.toReal := by
  cases x with
  | truth b => exact realOfInt_raises _
  | whole n => exact realOfInt_raises n
  | real x => exact raises_ok x

theorem Number.truncate_raises (x : Number) : Raises Stray x.truncate := by
  cases x with
  | truth b => exact raises_ok _
  | whole n => exact raises_ok n
  | real x => exact integral_raises ..

theorem Reduction.scale_raises (reduction : Reduction) : Raises Stray reduction.scale :=
  .ite (fun _ => raises_ok _) fun _ => raises_error .conversion

/-! ## Requests -/

theorem Region.ofInts_raises (x y width height : Int) :
    Raises OwnCheck (Region.ofInts x y width height) := by
  unfold Region.ofInts Region.ofFields Checked.toResult
  split
  · exact raises_ok _
  · exact raises_error .invalid

theorem CropRequest.coordinates_raises (r : CropRequest) (size : Int × Int)
    (reduction : Reduction) : Raises Stray (r.coordinates size reduction) := by
  have along (v : Real64) (side : Int) :
      Raises Stray (realOfInt side >>= fun x => roundHalfAway (v * x)) :=
    (realOfInt_raises side).bind fun _ => roundHalfAway_raises _
  unfold coordinates
  cases r.unit with
  | percent =>
    exact (along ..).bind fun _ => (along ..).bind fun _ => (along ..).bind fun _ =>
      (along ..).bind fun _ => raises_ok _
  | pixels =>
    exact reduction.scale_raises.bind fun _ => (roundHalfAway_raises _).bind fun _ =>
      (roundHalfAway_raises _).bind fun _ => (roundHalfAway_raises _).bind fun _ =>
        (roundHalfAway_raises _).bind fun _ => raises_ok _

theorem CropRequest.region_raises (r : CropRequest) (size : Int × Int) (reduction : Reduction) :
    Raises OwnCheck (r.region size reduction) := by
  refine .ite (fun _ => Region.ofInts_raises ..) fun _ => ?_
  refine ((r.coordinates_raises size reduction).mono Stray.ownCheck).bind ?_
  intro (x, y, width, height)
  exact .guard .geometry (Region.ofInts_raises ..)

theorem ScaleRequest.require_raises (r : ScaleRequest) (field : String) (x : Option Number) :
    Raises Stray (r.require field x) := by
  cases x with
  | none => exact raises_error .missingTarget
  | some x => exact raises_ok x

theorem ScaleRequest.quotient_raises (x : Number) (side : Int) :
    Raises Stray (quotient x side) := by
  unfold quotient
  split
  · exact realOfFraction_raises ..
  · exact x.toReal_raises.bind fun _ => (realOfInt_raises side).bind fun _ => raises_ok _

theorem ScaleRequest.scaledSide_raises (side : Int) (factor : Real64) :
    Raises Stray (scaledSide side factor) :=
  (realOfInt_raises side).bind fun _ => roundHalfAway_raises _

theorem ScaleRequest.uncheckedTarget_raises (r : ScaleRequest) (source : Int × Int)
    (reduction : Reduction) : Raises Stray (r.uncheckedTarget source reduction) := by
  unfold uncheckedTarget
  cases r.mode with
  | fitWidth =>
    exact (r.require_raises ..).bind fun width => width.truncate_raises.bind fun _ =>
      (realOfFraction_raises ..).bind fun _ => (roundHalfAway_raises _).bind fun _ => raises_ok _
  | fitHeight =>
    exact (r.require_raises ..).bind fun height => height.truncate_raises.bind fun _ =>
      (realOfFraction_raises ..).bind fun _ => (roundHalfAway_raises _).bind fun _ => raises_ok _
  | fill =>
    exact (r.require_raises ..).bind fun width => width.truncate_raises.bind fun _ =>
      (r.require_raises ..).bind fun height => height.truncate_raises.bind fun _ => raises_ok _
  | fitInside =>
    exact (r.require_raises ..).bind fun _ => (quotient_raises ..).bind fun _ =>
      (r.require_raises ..).bind fun _ => (quotient_raises ..).bind fun _ =>
        (scaledSide_raises ..).bind fun _ => (scaledSide_raises ..).bind fun _ => raises_ok _
  | percent =>
    exact (r.require_raises ..).bind fun wanted => reduction.scale_raises.bind fun _ =>
      wanted.toReal_raises.bind fun _ => (scaledSide_raises ..).bind fun _ =>
        (scaledSide_raises ..).bind fun _ => raises_ok _

theorem ScaleRequest.target_raises (r : ScaleRequest) (source : Int × Int) (reduction : Reduction) :
    Raises OwnCheck (r.target source reduction) := by
  refine .guard .geometry ?_
  refine ((r.uncheckedTarget_raises source reduction).mono Stray.ownCheck).bind ?_
  intro target
  exact .guard .geometry (raises_ok target)

theorem Rotation.canvasSize_raises (width height : Number) (degrees : Real64) :
    Raises Stray (canvasSize width height (.real degrees)) :=
  width.toReal_raises.bind fun _ => height.toReal_raises.bind fun _ =>
    (roundHalfAway_raises _).bind fun _ => (roundHalfAway_raises _).bind fun _ => raises_ok _

/-! ## Plans -/

/-- Planning fails by an own check of the edit and in no other way. -/
theorem Edit.plan_raises (layout : Layout) (size : Size) (e : Edit) :
    Raises OwnCheck (e.plan layout size) := by
  cases e with
  | crop request reduction =>
    refine .ite (fun _ => raises_ok _) fun _ => ?_
    refine (request.region_raises ..).bind fun region => ?_
    exact .ite (fun _ => raises_ok _) fun _ => raises_ok _
  | scale request reduction highQuality =>
    refine (request.target_raises ..).bind fun target => ?_
    exact .ite (fun _ => raises_ok _) fun _ =>
      .guard .unsupportedLayout (.guard .geometry (raises_ok _))
  | rotate request =>
    exact .ite (fun _ => raises_ok _) fun _ =>
      .guard .unsupportedLayout (((Rotation.canvasSize_raises ..).mono Stray.ownCheck).bind
        fun _ => raises_ok _)
  | flip direction => exact raises_ok _
  | tone wanted =>
    exact .ite (fun _ => raises_ok _) fun _ => .guard .unsupportedLayout (raises_ok _)
  | removeAlpha =>
    cases layout with
    | custom => exact raises_error .unsupportedLayout
    | _ => exact raises_ok _
  | normalize => cases layout <;> exact raises_ok _

/-! ## Sides -/

theorem shortWord_succeeds {n : Nat} : Succeeds (shortWord n) ↔ n < 2 ^ 31 := by
  unfold shortWord
  by_cases fits : n < 2 ^ 31
  · rw [if_neg (by omega), if_neg (by omega), if_neg (by omega)]
    exact iff_of_true (succeeds_ok _) fits
  · refine iff_of_false ?_ fits
    by_cases beyond : n < 2 ^ 63
    · rw [if_neg (by omega), if_pos (by omega)]
      exact not_succeeds_error _
    · rw [if_pos (by omega)]
      exact not_succeeds_error _

theorem Picture.checkSides_succeeds {size : Size} :
    Succeeds (checkSides size) ↔ size.width < 2 ^ 31 ∧ size.height < 2 ^ 31 := by
  have height : Succeeds (shortWord size.height >>= fun _ => .ok ()) ↔ size.height < 2 ^ 31 :=
    (succeeds_bind_and fun _ => iff_of_true (succeeds_ok ()) trivial).trans
      ((and_iff_left trivial).trans shortWord_succeeds)
  rw [← shortWord_succeeds (n := size.width), ← height]
  exact succeeds_bind_and fun _ => Iff.rfl

theorem Edit.checkSides_raises (size : Size) (e : Edit) :
    Raises (fun fault => ∃ cause, fault = .conversion cause) (e.checkSides size) := by
  cases e with
  | scale =>
    exact (shortWord_raises _).bind fun _ => (shortWord_raises _).bind fun _ => raises_ok ()
  | _ => exact raises_ok ()

theorem Edit.checkSides_stray (size : Size) (e : Edit) : Raises Stray (e.checkSides size) :=
  (e.checkSides_raises size).mono fun ⟨_, same⟩ => same ▸ .conversion

/-- The sides of a planned size that are refused are too long for words of 32 bits. -/
theorem Edit.checkSides_cases (size : Size) (e : Edit) :
    e.checkSides size = .ok () ∨
      (2 ^ 31 ≤ size.width ∨ 2 ^ 31 ≤ size.height) ∧
        ∃ cause, e.checkSides size = .error (.conversion cause) := by
  have raises := e.checkSides_raises size
  cases checked : e.checkSides size with
  | ok _ => exact .inl rfl
  | error fault =>
    obtain ⟨cause, rfl⟩ := raises.of_error fault checked
    refine .inr ⟨?_, cause, rfl⟩
    cases e with
    | scale =>
      have refused : ¬Succeeds (Picture.checkSides size) := by
        rw [show Picture.checkSides size = _ from checked]
        exact not_succeeds_error _
      rw [Picture.checkSides_succeeds] at refused
      omega
    | _ => cases checked

end RasterEdit
