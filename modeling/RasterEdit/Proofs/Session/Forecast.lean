import RasterEdit.Proofs.Session.Simulation

/-!
# Forecasts of requests

The layout and the size of the raster at hand decide what an edit answers: how it fails, that it has
nothing to do, or which layout and size its result has. A whole request can therefore be answered
up to pixels from the outline of its first raster, and two rasters of one outline are treated alike.
-/

set_option autoImplicit false

namespace RasterEdit

/-- All of a raster that is not in its pixels. The samples of custom rasters of one outline may be
of different kinds and numbers. -/
structure Outline where
  layout : Layout
  size : Size
deriving DecidableEq

def Raster.outline (r : Raster) : Outline := ⟨r.layout, r.size⟩

/-- The outline that is at hand after an edit was answered. -/
def Outline.after (o : Outline) : Result (Option Outline) → Outline
  | .ok (some made) => made
  | _ => o

namespace Edit

/-- The outline of the raster that an edit makes, or nothing if it leaves the raster it is given. -/
def forecast (settings : Settings) (o : Outline) (e : Edit) : Result (Option Outline) := do
  match ← e.plan o.layout o.size with
  | none => return none
  | some p =>
    e.permit settings p
    return some ⟨p.layout, p.size⟩

/-- The forecasts of edits that are made one after the other. -/
def forecasts (settings : Settings) (o : Outline) : List Edit → List (Result (Option Outline))
  | [] => []
  | e :: rest =>
    let answer := e.forecast settings o
    answer :: forecasts settings (o.after answer) rest

theorem outline_of_make {settings : Settings} {r after : Raster} {e : Edit} {p : Plan}
    (planned : e.plan r.layout r.size = .ok (some p))
    (made : e.make settings p.size r = .ok after) : after.outline = ⟨p.layout, p.size⟩ := by
  obtain ⟨after', made', layout_eq, size_eq⟩ := make_of_plan settings planned
  rw [made'] at made
  cases made
  rw [Raster.outline, layout_eq, size_eq]

end Edit

theorem Raster.outline_simulates : Raster.Simulates fun r t => r.outline = t.outline where
  plan := by
    intro r t same e
    obtain ⟨layout_eq, size_eq⟩ := Outline.mk.inj same
    rw [layout_eq, size_eq]
    exact .refl Plan.alike_refl _
  make := by
    intro r t same settings e p q r' t' leftPlan rightPlan _ left right
    obtain ⟨layout_eq, size_eq⟩ := Outline.mk.inj same
    have plans := leftPlan
    rw [layout_eq, size_eq, rightPlan] at plans
    cases plans
    rw [Edit.outline_of_make leftPlan left, Edit.outline_of_make rightPlan right]

/-- The outline of a new raster. -/
def Reply.made? : Reply → Option Outline
  | .fresh r => some r.outline
  | _ => none

namespace Session

/-- An edit step answers as forecast, and leaves the outline that was forecast. -/
theorem step_forecast (s : Session) (e : Edit) :
    (s.step (.ok (.edit e))).2.map (fun answer => answer.1.made?) =
        e.forecast s.settings s.current.raster.outline ∧
      (s.step (.ok (.edit e))).1.current.raster.outline =
        s.current.raster.outline.after (e.forecast s.settings s.current.raster.outline) ∧
      (s.step (.ok (.edit e))).1.settings = s.settings := by
  have takes := s.step_takes e
  simp only [Edit.forecast, Raster.outline]
  cases planned : e.plan s.current.raster.layout s.current.raster.size with
  | error fault =>
    rw [planned] at takes
    rw [show s.step (.ok (.edit e)) = _ from takes]
    exact ⟨rfl, rfl, rfl⟩
  | ok plan =>
    rw [planned] at takes
    cases plan with
    | none =>
      obtain ⟨notes, taken, -⟩ := takes
      rw [taken]
      exact ⟨rfl, rfl, rfl⟩
    | some p =>
      obtain ⟨after, text, made, -, -, taken⟩ := takes
      have outline := Edit.outline_of_make planned made
      rw [taken, Result.ok_bind]
      dsimp only
      cases e.permit s.settings p with
      | error fault => exact ⟨rfl, rfl, rfl⟩
      | ok _ => exact ⟨congrArg (fun o => Except.ok (some o)) outline, outline, rfl⟩

theorem run_forecasts (s : Session) (edits : List Edit) :
    (s.run (edits.map fun e => .ok (.edit e))).map (·.map fun answer => answer.1.made?) =
      Edit.forecasts s.settings s.current.raster.outline edits := by
  induction edits generalizing s with
  | nil => rfl
  | cons e edits ih =>
    obtain ⟨answer, outline, settings⟩ := s.step_forecast e
    simp only [List.map_cons, run, Edit.forecasts]
    rw [ih, answer, outline, settings]

/-- Rasters of one outline give the same failures, are kept at the same steps and replaced at the
same steps, by rasters of one outline again. What a request answers, pixels aside, is computed from
the outline. -/
theorem control_flow_ignores_pixels (settings : Settings) {r t : Raster}
    (alike : r.outline = t.outline) :
    (∀ steps : List (Result Step), (∀ step ∈ steps, Requested step) →
      List.Forall₂ (Answers fun a b => a.outline = b.outline) ((start settings r).run steps)
        ((start settings t).run steps)) ∧
    ∀ edits : List Edit,
      ((start settings r).run (edits.map fun e => .ok (.edit e))).map
          (·.map fun answer => answer.1.made?) =
        Edit.forecasts settings r.outline edits := by
  refine ⟨?_, fun edits => run_forecasts (start settings r) edits⟩
  intro steps requested
  have together : Related (fun a b => a.outline = b.outline) (start settings r)
      (start settings t) := ⟨rfl, alike⟩
  exact (run_related (fun related step asked =>
    Related.step_requested Raster.outline_simulates related asked) together requested).1

theorem control_flow_of_custom_kinds :
    List.Forall₂ (Answers fun a b => a.outline = b.outline)
      ((start .default (.custom .uint8 .flat ⟨1, 1, #[#v[7]], rfl⟩)).run
        [.ok (.edit .removeAlpha), .ok (.edit .normalize), .ok (.edit .normalize)])
      ((start .default (.custom .int16 (.stacked 2 Nat.two_pos) ⟨1, 1, #[#v[5, 9]], rfl⟩)).run
        [.ok (.edit .removeAlpha), .ok (.edit .normalize), .ok (.edit .normalize)]) := by
  refine (control_flow_ignores_pixels .default
    (r := .custom .uint8 .flat ⟨1, 1, #[#v[7]], rfl⟩)
    (t := .custom .int16 (.stacked 2 Nat.two_pos) ⟨1, 1, #[#v[5, 9]], rfl⟩) rfl).1 _ ?_
  intro step member
  simp only [List.mem_cons, List.not_mem_nil, or_false] at member
  rcases member with rfl | rfl | rfl
  · exact .edit _
  · exact .edit _
  · exact .edit _

end Session

end RasterEdit
