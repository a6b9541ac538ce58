import RasterEdit.Proofs.Edit.Checks
import RasterEdit.Proofs.Session.Run

/-!
# The output limit

An edit step under a limit is the same step without one, with the budget put before the new raster:
the budget sees exactly the size that is to be made, and only after the edit's own checks have
passed.
-/

set_option autoImplicit false

namespace RasterEdit

/-- The same settings without a limit, and without the duty to have one. -/
def Settings.unlimited (s : Settings) : Settings :=
  { s with maxOutputPixels := 0, requireOutputLimit := false }

theorem Budget.limit_eq (settings : Settings) :
    Budget.limit settings none =
      if settings.requireOutputLimit = true ∧ settings.maxOutputPixels = 0 then
        .error (.unconfigured "Output pixel limit" "MAX_OUTPUT_PIXELS")
      else .ok (settings.maxOutputPixels : Int) := by
  unfold Budget.limit Settings.outputLimit
  cases settings.requireOutputLimit with
  | false => simp only [Bool.false_eq_true, false_and, ↓reduceIte]
  | true =>
    by_cases unset : settings.maxOutputPixels = 0
    · simp only [unset, and_self, ↓reduceIte]
      rfl
    · simp only [unset, and_false, ↓reduceIte]
      rfl

theorem Budget.check_eq (settings : Settings) (operation : String) (size : Size) :
    Budget.check settings operation size.toPair =
      if settings.requireOutputLimit = true ∧ settings.maxOutputPixels = 0 then
        .error (.unconfigured "Output pixel limit" "MAX_OUTPUT_PIXELS")
      else if 0 < settings.maxOutputPixels ∧ settings.maxOutputPixels < size.area then
        .error (.allocation (.overLimit size.area) operation size.toPair
          (some (settings.maxOutputPixels : Int)))
      else .ok () := by
  have area : size.toPair.1 * size.toPair.2 = (size.area : Int) := (Int.natCast_mul ..).symm
  have bounded :
      (0 < (settings.maxOutputPixels : Int) ∧ (settings.maxOutputPixels : Int) < size.area) ↔
      (0 < settings.maxOutputPixels ∧ settings.maxOutputPixels < size.area) := by omega
  unfold Budget.check
  rw [Budget.limit_eq]
  split
  · rfl
  · simp only [Result.ok_bind, area, bounded]
    rfl

theorem Budget.check_unlimited (settings : Settings) (operation : String) (size : Size) :
    Budget.check settings.unlimited operation size.toPair = .ok () := by
  rw [Budget.check_eq]
  simp [Settings.unlimited]

theorem Edit.make_unlimited (settings : Settings) (size : Size) (r : Raster) (e : Edit) :
    e.make settings.unlimited size r = e.make settings size r := by
  cases e <;> rfl

namespace Session

def unlimited (s : Session) : Session := { s with settings := s.settings.unlimited }

/-- The step has something to do, passes the edit's own checks and is to make a raster of a size. -/
def Asks (s : Session) (e : Edit) (size : Size) : Prop :=
  ∃ p, e.plan s.current.raster.layout s.current.raster.size = .ok (some p) ∧ p.size = size

/-- An edit step beside the same step without a limit. -/
inductive Limited (s : Session) (e : Edit) : Prop where
  | unasked (silent : ∀ size, ¬s.Asks e size) (settled : ∀ after, s.reply e ≠ .ok (.fresh after))
      (own : Result.Raises Failure.OwnCheck (s.reply e)) (free : s.unlimited.reply e = s.reply e)
  | asked {operation : String} {after : Raster} (asks : ∀ size, s.Asks e size ↔ size = after.size)
      (free : s.unlimited.reply e = (e.checkSides after.size >>= fun _ => .ok (.fresh after)))
      (guarded : s.reply e = (Budget.check s.settings operation after.size.toPair >>= fun _ =>
        s.unlimited.reply e))

theorem not_asks {s : Session} {e : Edit}
    (unplanned : ∀ p, e.plan s.current.raster.layout s.current.raster.size ≠ .ok (some p))
    (size : Size) : ¬s.Asks e size := by
  rintro ⟨p, planned, -⟩
  exact unplanned p planned

theorem limited (s : Session) (e : Edit) : s.Limited e := by
  have limited := s.reply_eq e
  have free := s.unlimited.reply_eq e
  simp only [unlimited, Edit.permit, Budget.check_unlimited, Edit.make_unlimited] at free
  cases planned : e.plan s.current.raster.layout s.current.raster.size with
  | error fault =>
    rw [planned] at limited free
    refine .unasked (not_asks ?_) ?_ ?_ (free.trans limited.symm)
    · rw [planned]
      exact nofun
    · rw [limited]
      exact nofun
    · rw [limited]
      exact Result.raises_error ((e.plan_raises ..).of_error fault planned)
  | ok plan =>
    rw [planned] at limited free
    cases plan with
    | none =>
      refine .unasked (not_asks ?_) ?_ ?_ (free.trans limited.symm)
      · rw [planned]
        exact nofun
      · rw [limited]
        exact nofun
      · rw [limited]
        exact Result.raises_ok _
    | some p =>
      obtain ⟨after, made, -, size_eq⟩ := Edit.make_of_plan s.settings planned
      rw [← size_eq] at made
      simp only [Result.ok_bind, ← size_eq, made] at limited free
      have guarded : s.reply e = (Budget.check s.settings p.operation after.size.toPair >>= fun _ =>
          s.unlimited.reply e) := by
        rw [limited, show s.unlimited.reply e = _ from free, Edit.permit, ← size_eq]
        cases Budget.check s.settings p.operation after.size.toPair <;> rfl
      refine .asked ?_ free guarded
      intro size
      constructor
      · rintro ⟨q, planned', rfl⟩
        cases planned.symm.trans planned'
        exact size_eq.symm
      · rintro rfl
        exact ⟨p, planned, size_eq.symm⟩

theorem asks_of_fresh {s : Session} {e : Edit} {after : Raster}
    (free : s.unlimited.reply e = .ok (.fresh after)) : s.Asks e after.size := by
  cases s.limited e with
  | unasked silent settled own same => exact absurd (same.symm.trans free) (settled after)
  | asked asks works guarded =>
    obtain ⟨-, -, made⟩ := Result.bind_eq_ok.mp (works.symm.trans free)
    cases made
    exact (asks _).mpr rfl

/-- What a step asks for it makes if there is no limit, unless the sides are too long. -/
theorem fresh_of_asks {s : Session} {e : Edit} {size : Size} (asked : s.Asks e size) :
    (∃ after, s.unlimited.reply e = .ok (.fresh after) ∧ after.size = size) ∨
      (2 ^ 31 ≤ size.width ∨ 2 ^ 31 ≤ size.height) ∧
        ∃ cause, s.unlimited.reply e = .error (.conversion cause) := by
  cases s.limited e with
  | unasked silent => exact absurd asked (silent size)
  | @asked _ after asks works guarded =>
    obtain rfl := (asks size).mp asked
    rw [works]
    refine (e.checkSides_cases after.size).imp ?_ ?_
    · intro fits
      rw [fits]
      exact ⟨after, rfl, rfl⟩
    · rintro ⟨long, cause, refused⟩
      rw [refused]
      exact ⟨long, cause, rfl⟩

theorem fresh_within_limit {s : Session} {e : Edit} {after : Raster}
    (limit : 0 < s.settings.maxOutputPixels) (answered : s.reply e = .ok (.fresh after)) :
    after.size.area ≤ s.settings.maxOutputPixels := by
  cases s.limited e with
  | unasked silent settled => exact absurd answered (settled after)
  | asked asks works guarded =>
    obtain ⟨_, admitted, free⟩ := Result.bind_eq_ok.mp (guarded.symm.trans answered)
    rw [← (asks _).mp (asks_of_fresh free), Budget.check_eq, if_neg (by omega)] at admitted
    split at admitted
    · cases admitted
    · next within => omega

/-- Neither the own checks of an edit nor the sides of its result refuse an allocation, so only the
budget does. -/
theorem allocation_refused_iff (s : Session) (e : Edit) :
    (∃ cause operation size bound, s.reply e = .error (.allocation cause operation size bound)) ↔
      0 < s.settings.maxOutputPixels ∧
        ∃ size, s.Asks e size ∧ s.settings.maxOutputPixels < size.area := by
  have stranger {cause : AllocationCause} {operation : Option String} {size : Option (Int × Int)}
      {bound : Option Int} {x : Result Reply} (own : Result.Raises Failure.OwnCheck x) :
      x ≠ .error (.allocation cause operation size bound) := by
    intro refused
    cases own.of_error _ refused
  cases s.limited e with
  | unasked silent settled own free =>
    refine iff_of_false ?_ fun ⟨_, size, asked, _⟩ => silent size asked
    rintro ⟨cause, operation, size, bound, refused⟩
    exact stranger own refused
  | @asked operation after asks works guarded =>
    simp only [asks, exists_eq_left]
    rw [guarded, Budget.check_eq]
    split
    · next unset =>
      refine iff_of_false ?_ fun limited => by omega
      rintro ⟨cause, operation, size, bound, refused⟩
      cases refused
    · split
      · next above => exact iff_of_true ⟨_, _, _, _, rfl⟩ above
      · next within =>
        refine iff_of_false ?_ within
        rintro ⟨cause, operation, size, bound, refused⟩
        refine stranger ?_ refused
        rw [Result.ok_bind, works]
        exact ((e.checkSides_stray _).mono Failure.Stray.ownCheck).bind fun _ => Result.raises_ok _

theorem unconfigured_of_required {s : Session} {e : Edit} {size : Size}
    (required : s.settings.requireOutputLimit = true) (unset : s.settings.maxOutputPixels = 0)
    (asked : s.Asks e size) :
    s.reply e = .error (.unconfigured "Output pixel limit" "MAX_OUTPUT_PIXELS") := by
  cases s.limited e with
  | unasked silent => exact absurd asked (silent size)
  | asked asks works guarded =>
    rw [guarded, Budget.check_eq, if_pos ⟨required, unset⟩]
    rfl

theorem same_of_unlimited {s : Session} {e : Edit} {kept : Raster}
    (free : s.unlimited.reply e = .ok (.same kept)) : s.reply e = .ok (.same kept) := by
  cases s.limited e with
  | unasked silent settled own same => exact same.symm.trans free
  | asked asks works guarded =>
    obtain ⟨-, -, fresh⟩ := Result.bind_eq_ok.mp (works.symm.trans free)
    cases fresh

/-- Under a limit every new raster is within it. An allocation is refused exactly if the step asks
for a raster above the limit. Where a limit is required and not set, every step that asks for a
raster is refused as unconfigured, and a step that has nothing to do is never refused. What a step
makes without a limit is what it asks for, and it makes that unless a side is too long. -/
theorem output_limit_airtight (settings : Settings) (r : Raster) (done : List (Result Step))
    (e : Edit) :
    let s := (start settings r).after done
    let limit := s.settings.maxOutputPixels
    (∀ after, 0 < limit → s.reply e = .ok (.fresh after) → after.size.area ≤ limit) ∧
    ((∃ cause operation size bound, s.reply e = .error (.allocation cause operation size bound)) ↔
      0 < limit ∧ ∃ size, s.Asks e size ∧ limit < size.area) ∧
    (s.settings.requireOutputLimit = true → limit = 0 → ∀ size, s.Asks e size →
      s.reply e = .error (.unconfigured "Output pixel limit" "MAX_OUTPUT_PIXELS")) ∧
    (∀ kept, s.unlimited.reply e = .ok (.same kept) → s.reply e = .ok (.same kept)) ∧
    (∀ after, s.unlimited.reply e = .ok (.fresh after) → s.Asks e after.size) ∧
    ∀ size, s.Asks e size →
      (∃ after, s.unlimited.reply e = .ok (.fresh after) ∧ after.size = size) ∨
        (2 ^ 31 ≤ size.width ∨ 2 ^ 31 ≤ size.height) ∧
          ∃ cause, s.unlimited.reply e = .error (.conversion cause) := by
  intro s limit
  refine ⟨?_, s.allocation_refused_iff e, ?_, ?_, ?_, ?_⟩
  · intro after limited answered
    exact fresh_within_limit limited answered
  · intro required unset size asked
    exact unconfigured_of_required required unset asked
  · intro kept free
    exact same_of_unlimited free
  · intro after free
    exact asks_of_fresh free
  · intro size asked
    exact fresh_of_asks asked

theorem output_limit_refuses_flip :
    ∃ cause operation size bound,
      (start { Settings.default with maxOutputPixels := 1 } (.gray ⟨2, 1, #[7, 9], rfl⟩)).reply
          (.flip .horizontal) =
        .error (.allocation cause operation size bound) := by
  have refused := (output_limit_airtight { Settings.default with maxOutputPixels := 1 }
    (.gray ⟨2, 1, #[7, 9], rfl⟩) [] (.flip .horizontal)).2.1
  exact refused.mpr ⟨Nat.one_pos, ⟨2, 1⟩, ⟨_, rfl, rfl⟩, Nat.one_lt_two⟩

end Session

end RasterEdit
