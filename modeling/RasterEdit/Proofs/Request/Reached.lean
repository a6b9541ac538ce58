import RasterEdit.Proofs.Edit.Plan
import RasterEdit.Proofs.Request.FitInside

/-!
# Reached sizes

A size that already is what a request asks for. Every target is one, and asking for it again gives
the same size: the factor of the second pass is exactly one, and a proportion of a side to itself is
exact. Scaling a second time therefore keeps the very raster.
-/

set_option autoImplicit false

namespace RasterEdit

open Binary Result

theorem Size.toPair_injective {a b : Size} (same : a.toPair = b.toPair) : a = b := by
  obtain ⟨width, height⟩ := a
  obtain ⟨width_eq, height_eq⟩ := Prod.mk.inj same
  obtain rfl : width = b.width := Int.ofNat.inj width_eq
  obtain rfl : height = b.height := Int.ofNat.inj height_eq
  rfl

/-! ## Exact proportions -/

/-- Equal shares have the same rounded factor. -/
theorem Short.fraction_congr {n d n' d' : Nat} (part : Short n) (whole : Short d)
    (part' : Short n') (whole' : Short d') (same : n * d' = n' * d) :
    Real64.ofFraction n d = Real64.ofFraction n' d' :=
  (part.rounded whole).eq_of_magnitude_eq (part'.rounded whole')
    (le_antisymm (part.magnitude_mono whole part' whole' same.le)
      (part'.magnitude_mono whole' part whole same.ge))

namespace ScaleRequest

/-- The product of two sides may be too long for binary64, but its quotient by one of them is the
other one. -/
theorem proportion_whole {length side : Nat} (positive : 0 < side) (short : length < 2 ^ 50) :
    ∃ quotient, realOfFraction ((length : Int) * side) side = .ok quotient ∧
      roundHalfAway quotient = .ok (length : Int) := by
  have whole : ((length * side : Nat) : ℚ) / side = length := by
    push_cast
    exact mul_div_cancel_right₀ _ (by exact_mod_cast positive.ne')
  have below : ((length * side : Nat) : ℚ) / side < Format.binary64.overflow := by
    rw [whole]
    calc (length : ℚ) < 2 ^ 50 := by exact_mod_cast short
      _ < Format.binary64.overflow := Real64.two_pow_lt_overflow (by decide)
  have rounded := rounded_ofFraction (f := .binary64) (by decide) (by decide) positive.ne' below
  rw [whole] at rounded
  have exact : (Real64.ofFraction (length * side : Nat) side).magnitude = length :=
    le_antisymm (Real64.le_natCast_of_rounded rounded (by omega) le_rfl)
      (Real64.natCast_le_of_rounded rounded (by omega) le_rfl)
  refine ⟨Real64.ofFraction (length * side : Nat) side, ?_, ?_⟩
  · rw [← Nat.cast_mul, realOfFraction_eq_ok]
    exact ⟨rounded.isFinite, rfl⟩
  · have nearest := Real64.roundHalfAway_whole rounded.isFinite exact (by omega)
    rw [rounded.isNegative] at nearest
    exact nearest

/-! ## What a target reaches -/

/-- The sizes that have the sides a request names, or fill the box it names. -/
inductive Reached : ScaleRequest → Size → Prop where
  | fitWidth {size : Size} {height percent : Option Number} :
      Reached ⟨.fitWidth, some (.whole size.width), height, percent⟩ size
  | fitHeight {size : Size} {width percent : Option Number} :
      Reached ⟨.fitHeight, width, some (.whole size.height), percent⟩ size
  | fill {size : Size} {percent : Option Number} :
      Reached ⟨.fill, some (.whole size.width), some (.whole size.height), percent⟩ size
  | fitInside {size box : Size} {percent : Option Number} (fills : size.Fills box) :
      Reached ⟨.fitInside, some (.whole box.width), some (.whole box.height), percent⟩ size

/-- All sides that a request names are short, whether its mode needs them or not. -/
def HasShortTargets (r : ScaleRequest) : Prop :=
  ∀ n : Int, some (.whole n) ∈ [r.width, r.height] → n < 2 ^ 50

section Targets

variable {r : ScaleRequest} {source size : Size} {reduction : Reduction}

theorem unchecked_of_target {target : Int × Int}
    (resolved : r.target source.toPair reduction = .ok target) :
    (r.mode = .fill ∨ 0 < source.width ∧ 0 < source.height) ∧
      r.uncheckedTarget source.toPair reduction = .ok target := by
  simp only [ScaleRequest.target] at resolved
  split at resolved
  · cases resolved
  · next nonempty =>
    obtain ⟨unchecked, named, positive⟩ := bind_eq_ok.mp resolved
    split at positive
    · cases positive
    · cases positive
      refine ⟨?_, named⟩
      by_cases fill : r.mode = .fill
      · exact .inl fill
      · have sides := not_and.mp nonempty fill
        simp only [Size.toPair] at sides
        right
        omega

theorem Accepted.reached_of_target (accepted : r.Accepted) (mode : r.mode ≠ .percent)
    (targets : r.HasShortTargets) (narrow : source.width < 2 ^ 50) (low : source.height < 2 ^ 50)
    (resolved : r.target source.toPair reduction = .ok size.toPair) : r.Reached size := by
  obtain ⟨nonempty, named⟩ := unchecked_of_target resolved
  cases accepted with
  | @fitWidth width =>
    simp only [uncheckedTarget, require, Number.truncate, ok_bind] at named
    obtain ⟨quotient, -, follows⟩ := bind_eq_ok.mp named
    obtain ⟨height, -, reached⟩ := bind_eq_ok.mp follows
    obtain rfl : width = size.width := Int.ofNat.inj (congrArg Prod.fst (Except.ok.inj reached))
    exact .fitWidth
  | @fitHeight height =>
    simp only [uncheckedTarget, require, Number.truncate, ok_bind] at named
    obtain ⟨quotient, -, follows⟩ := bind_eq_ok.mp named
    obtain ⟨width, -, reached⟩ := bind_eq_ok.mp follows
    obtain rfl : height = size.height := Int.ofNat.inj (congrArg Prod.snd (Except.ok.inj reached))
    exact .fitHeight
  | @fill width height =>
    obtain rfl : width = size.width := Int.ofNat.inj (congrArg Prod.fst (Except.ok.inj named))
    obtain rfl : height = size.height := Int.ofNat.inj (congrArg Prod.snd (Except.ok.inj named))
    exact .fill
  | @fitInside width height percent width_pos height_pos =>
    obtain ⟨wide, high⟩ := nonempty.resolve_left (by simp)
    have box_narrow : width < 2 ^ 50 := by exact_mod_cast targets width (.head _)
    have box_low : height < 2 ^ 50 := by exact_mod_cast targets height (.tail _ (.head _))
    have inside : ScaleRequest.IntoBox
        ⟨.fitInside, some (.whole width), some (.whole height), percent⟩ source
        ⟨width, height⟩ :=
      ⟨rfl, rfl, rfl, ⟨wide, narrow⟩, ⟨high, low⟩, ⟨width_pos, box_narrow⟩, ⟨height_pos, box_low⟩⟩
    obtain ⟨-, ⟨cause, operation, given, refused⟩ | ⟨reached, same, fills⟩⟩ :=
      inside.target_fills reduction
    · rw [resolved] at refused
      cases refused
    · rw [resolved] at same
      obtain rfl := Size.toPair_injective (Except.ok.inj same)
      exact .fitInside fills
  | percent => exact absurd rfl mode

theorem Reached.target_eq (reached : r.Reached size) (targets : r.HasShortTargets)
    (wide : 0 < size.width) (high : 0 < size.height) (narrow : size.width < 2 ^ 50)
    (low : size.height < 2 ^ 50) (reduction : Reduction) :
    r.target size.toPair reduction = .ok size.toPair := by
  suffices named : r.uncheckedTarget size.toPair reduction = .ok (size.width, size.height) by
    exact target_of_pos wide high named wide high
  cases reached with
  | fitWidth =>
    obtain ⟨quotient, expressed, rounded⟩ := proportion_whole wide low
    simp only [uncheckedTarget, require, Number.truncate, Size.toPair, expressed, rounded, ok_bind]
    rfl
  | fitHeight =>
    obtain ⟨quotient, expressed, rounded⟩ := proportion_whole high narrow
    simp only [uncheckedTarget, require, Number.truncate, Size.toPair, expressed, rounded, ok_bind]
    rfl
  | fill => rfl
  | @fitInside _ box percent fills =>
    have box_narrow : box.width < 2 ^ 50 := by exact_mod_cast targets box.width (.head _)
    have box_low : box.height < 2 ^ 50 := by
      exact_mod_cast targets box.height (.tail _ (.head _))
    have inside : ScaleRequest.IntoBox
        ⟨.fitInside, some (.whole box.width), some (.whole box.height), percent⟩ size box :=
      ⟨rfl, rfl, rfl, ⟨wide, narrow⟩, ⟨high, low⟩,
        ⟨wide.trans_le fills.width_le, box_narrow⟩, ⟨high.trans_le fills.height_le, box_low⟩⟩
    -- The side that touches the box has the factor one, and no smaller one is there.
    rcases fills.touches with touches | touches
    · have tight : box.width * size.height ≤ box.height * size.width := by
        rw [touches, Nat.mul_comm]
        exact Nat.mul_le_mul_right _ fills.height_le
      have one := inside.box_wide.fraction_congr inside.wide inside.high inside.high
        (by rw [touches, Nat.mul_comm])
      have follows := scaledSide_self inside.high inside.high
      rw [← one] at follows
      rw [inside.uncheckedTarget_across tight follows reduction, touches]
    · have tight : box.height * size.width ≤ box.width * size.height := by
        rw [touches, Nat.mul_comm]
        exact Nat.mul_le_mul_right _ fills.width_le
      have one := inside.box_high.fraction_congr inside.high inside.wide inside.wide
        (by rw [touches, Nat.mul_comm])
      have follows := scaledSide_self inside.wide inside.wide
      rw [← one] at follows
      rw [inside.uncheckedTarget_down tight follows reduction, touches]

end Targets

end ScaleRequest

/-! ## Scaled rasters -/

/-- The size that a scale plans to make, or to keep, is its target. -/
theorem Edit.target_of_plan {request : ScaleRequest} {reduction : Reduction} {highQuality : Bool}
    {layout : Layout} {size : Size} {plan : Option Plan}
    (planned : (Edit.scale request reduction highQuality).plan layout size = .ok plan) :
    request.target size.toPair reduction = .ok (plan.elim size Plan.size).toPair := by
  cases plan with
  | some p =>
    cases Edit.planned_of_plan planned with
    | scale resolved =>
      obtain ⟨across, down⟩ := request.target_pos resolved
      rw [resolved, Option.elim_some, Size.toPair_toNat across.le down.le]
  | none =>
    simp only [Edit.plan] at planned
    obtain ⟨target, resolved, planned⟩ := bind_eq_ok.mp planned
    by_cases kept : target = size.toPair
    · rwa [kept] at resolved
    · rw [if_neg kept] at planned
      cases standard : layout.isStandard with
      | false => simp [standard] at planned
      | true =>
        cases nonempty : size.isEmpty with
        | true => simp [standard, nonempty] at planned
        | false =>
          simp only [standard, nonempty] at planned
          cases planned

namespace Raster

variable {settings : Settings} {request : ScaleRequest} {reduction : Reduction}
  {highQuality : Bool} {r : Raster}

theorem target_of_scale {outcome : Outcome}
    (scaled : r.scale settings request reduction highQuality = .ok outcome) :
    request.target r.size.toPair reduction = .ok (outcome.raster r).size.toPair := by
  have follows := Edit.apply_follows settings r (.scale request reduction highQuality)
  cases planned : (Edit.scale request reduction highQuality).plan r.layout r.size with
  | error fault =>
    rw [planned] at follows
    cases scaled.symm.trans follows
  | ok plan =>
    rw [planned] at follows
    have target := Edit.target_of_plan planned
    cases plan with
    | none =>
      obtain ⟨note, applied, -⟩ := follows
      cases scaled.symm.trans applied
      exact target
    | some p =>
      obtain ⟨after, text, -, -, size_eq, applied⟩ := follows
      obtain ⟨-, -, produced⟩ := bind_eq_ok.mp (applied.symm.trans scaled)
      cases produced
      rw [Outcome.raster, size_eq]
      exact target

theorem scale_of_kept (kept : request.target r.size.toPair reduction = .ok r.size.toPair) :
    ∃ note, r.scale settings request reduction highQuality = .ok (.unchanged note) := by
  rw [Raster.scale, kept, ok_bind, if_pos rfl]
  exact ⟨_, rfl⟩

end Raster

/-- Whatever an accepted request other than a percentage has led to, asking for it again leads to
the same size; a raster that was scaled stays the very same when it is scaled again. -/
theorem scaling_twice_is_scaling_once {fields : Fields} {request : ScaleRequest}
    (read : ScaleRequest.ofFields fields = .ok request) (mode : request.mode ≠ .percent)
    (targets : request.HasShortTargets) :
    (∀ (source : Size) (reduction reduction' : Reduction) (reached : Int × Int),
      source.width < 2 ^ 50 → source.height < 2 ^ 50 → reached.1 < 2 ^ 50 → reached.2 < 2 ^ 50 →
      request.target source.toPair reduction = .ok reached →
        request.target reached reduction' = .ok reached) ∧
    ∀ (r : Raster) (settings settings' : Settings) (reduction reduction' : Reduction)
      (highQuality highQuality' : Bool) (outcome : Outcome),
      r.width < 2 ^ 50 → r.height < 2 ^ 50 → (outcome.raster r).width < 2 ^ 50 →
      (outcome.raster r).height < 2 ^ 50 →
      r.scale settings request reduction highQuality = .ok outcome →
        ∃ note, (outcome.raster r).scale settings' request reduction' highQuality' =
          .ok (.unchanged note) := by
  have again {source size : Size} {reduction : Reduction} (reduction' : Reduction)
      (narrow : source.width < 2 ^ 50) (low : source.height < 2 ^ 50)
      (size_narrow : size.width < 2 ^ 50) (size_low : size.height < 2 ^ 50)
      (resolved : request.target source.toPair reduction = .ok size.toPair) :
      request.target size.toPair reduction' = .ok size.toPair := by
    have reached := (ScaleRequest.accepted read).reached_of_target mode targets narrow low resolved
    obtain ⟨wide, high⟩ := request.target_pos resolved
    exact reached.target_eq targets (Int.natCast_pos.mp wide) (Int.natCast_pos.mp high) size_narrow
      size_low reduction'
  constructor
  · intro source reduction reduction' reached narrow low size_narrow size_low resolved
    obtain ⟨width, height⟩ := reached
    obtain ⟨wide, high⟩ := request.target_pos resolved
    lift width to Nat using wide.le
    lift height to Nat using high.le
    exact @again source ⟨width, height⟩ reduction reduction' narrow low
      (Int.ofNat_lt.mp size_narrow) (Int.ofNat_lt.mp size_low) resolved
  · intro r settings settings' reduction reduction' highQuality highQuality' outcome narrow low
      size_narrow size_low scaled
    exact Raster.scale_of_kept
      (again reduction' narrow low size_narrow size_low (Raster.target_of_scale scaled))

theorem scaling_twice_is_scaling_once_inside :
    ∃ request, ScaleRequest.ofFields
        [("mode", .text "aspect_fit_inside"), ("width", .whole 2), ("height", .whole 2)] =
          .ok request ∧ request.mode ≠ .percent ∧ request.HasShortTargets ∧
      request.target (5, 3) .none = .ok (2, 1) ∧ request.target (2, 1) ⟨3⟩ = .ok (2, 1) ∧
      ∃ outcome, (Raster.gray (.replicate 5 3 7)).scale .default request .none false =
          .ok outcome ∧ (outcome.raster (.gray (.replicate 5 3 7))).size = ⟨2, 1⟩ ∧
        ∃ note, (outcome.raster (.gray (.replicate 5 3 7))).scale .default request ⟨3⟩ true =
          .ok (.unchanged note) := by
  have read : ScaleRequest.ofFields
      [("mode", .text "aspect_fit_inside"), ("width", .whole 2), ("height", .whole 2)] =
        .ok ⟨.fitInside, some (.whole 2), some (.whole 2), none⟩ := rfl
  have targets : ScaleRequest.HasShortTargets
      ⟨.fitInside, some (.whole 2), some (.whole 2), none⟩ := by
    intro n member
    obtain rfl : n = 2 := by simpa using member
    decide
  have resolved : (⟨.fitInside, some (.whole 2), some (.whole 2), none⟩ : ScaleRequest).target
      (5, 3) .none = .ok (2, 1) := rfl
  obtain ⟨outcome, scaled⟩ : ∃ outcome, (Raster.gray (.replicate 5 3 7)).scale .default
      ⟨.fitInside, some (.whole 2), some (.whole 2), none⟩ .none false = .ok outcome := ⟨_, rfl⟩
  have size_eq : (outcome.raster (.gray (.replicate 5 3 7))).size = ⟨2, 1⟩ :=
    Size.toPair_injective
      (Except.ok.inj ((Raster.target_of_scale scaled).symm.trans resolved))
  obtain ⟨again, kept⟩ := scaling_twice_is_scaling_once read nofun targets
  refine ⟨_, read, nofun, targets, resolved,
    again ⟨5, 3⟩ .none ⟨3⟩ (2, 1) (by decide) (by decide) (by decide) (by decide) resolved,
    outcome, scaled, size_eq, ?_⟩
  apply kept _ .default .default .none ⟨3⟩ false true outcome (by decide) (by decide) _ _ scaled
  · rw [Raster.width, size_eq]
    decide
  · rw [Raster.height, size_eq]
    decide

end RasterEdit
