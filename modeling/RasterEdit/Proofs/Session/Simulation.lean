import Mathlib.Data.List.Forall2
import RasterEdit.Proofs.Session.Run

/-!
# Two runs side by side

A relation between rasters that plans do not tell apart and work preserves is kept by every edit
step, and the two sessions answer alike. Runs of such steps therefore go in lockstep.
-/

set_option autoImplicit false

namespace RasterEdit

inductive Reply.Rel (Q : Raster → Raster → Prop) : Reply → Reply → Prop where
  | same {a b : Raster} (related : Q a b) : Rel Q (.same a) (.same b)
  | fresh {a b : Raster} (related : Q a b) : Rel Q (.fresh a) (.fresh b)
  | configured (settings : Settings) : Rel Q (.configured settings) (.configured settings)

theorem Reply.Rel.mono {Q Q' : Raster → Raster → Prop} {a b : Reply} (related : Reply.Rel Q a b)
    (weaker : ∀ r t, Q r t → Q' r t) : Reply.Rel Q' a b := by
  cases related with
  | same related => exact .same (weaker _ _ related)
  | fresh related => exact .fresh (weaker _ _ related)
  | configured settings => exact .configured settings

/-- Plans that the checks of the planned size do not tell apart. -/
structure Plan.Alike (p q : Plan) : Prop where
  operation_eq : p.operation = q.operation
  size_eq : p.size = q.size

theorem Plan.Alike.permit_eq {p q : Plan} (alike : p.Alike q) (settings : Settings) (e : Edit) :
    e.permit settings p = e.permit settings q := by
  rw [Edit.permit, Edit.permit, alike.operation_eq, alike.size_eq]

theorem Plan.alike_refl (plan : Option Plan) : Option.Rel Plan.Alike plan plan := by
  cases plan with
  | none => exact .none
  | some p => exact .some ⟨rfl, rfl⟩

theorem Plan.alike_meet {p q shared : Option Plan} (left : Option.Rel Plan.Alike p shared)
    (right : Option.Rel Plan.Alike q shared) : Option.Rel Plan.Alike p q := by
  cases left with
  | none =>
    cases right
    exact .none
  | some left =>
    cases right with
    | some right =>
      exact .some ⟨left.operation_eq.trans right.operation_eq.symm,
        left.size_eq.trans right.size_eq.symm⟩

/-- A relation of rasters under which edits are planned alike and whose rasters they take to related
ones. -/
structure Raster.Simulates (Q : Raster → Raster → Prop) : Prop where
  plan : ∀ {r t : Raster}, Q r t → ∀ e : Edit,
    Result.Rel (Option.Rel Plan.Alike) (e.plan r.layout r.size) (e.plan t.layout t.size)
  make : ∀ {r t : Raster}, Q r t → ∀ {settings : Settings} {e : Edit} {p q : Plan} {r' t' : Raster},
    e.plan r.layout r.size = .ok (some p) → e.plan t.layout t.size = .ok (some q) → p.Alike q →
    e.make settings p.size r = .ok r' → e.make settings q.size t = .ok t' → Q r' t'

namespace Session

variable {Q : Raster → Raster → Prop}

/-- Sessions with equal settings and related rasters. -/
structure Related (Q : Raster → Raster → Prop) (s t : Session) : Prop where
  settings_eq : s.settings = t.settings
  current : Q s.current.raster t.current.raster

/-- Answers whose replies are related, whatever was logged. -/
def Answers (Q : Raster → Raster → Prop) :
    Result (Reply × List Journal.Entry) → Result (Reply × List Journal.Entry) → Prop :=
  Result.Rel fun a b => Reply.Rel Q a.1 b.1

theorem Answers.mono {Q' : Raster → Raster → Prop} (weaker : ∀ r t, Q r t → Q' r t)
    {a b : Result (Reply × List Journal.Entry)} (answers : Answers Q a b) : Answers Q' a b :=
  Result.Rel.mono answers fun _ _ related => related.mono weaker

theorem Answers.fresh {r : Raster} {entries : List Journal.Entry}
    {answer : Result (Reply × List Journal.Entry)}
    (answers : Answers Q (.ok (.fresh r, entries)) answer) :
    ∃ t notes, answer = .ok (.fresh t, notes) ∧ Q r t := by
  unfold Answers at answers
  cases answers with
  | @ok _ b related =>
    obtain ⟨reply, notes⟩ := b
    cases related with
    | fresh related => exact ⟨_, notes, rfl, related⟩

theorem Related.replace {s t : Session} (related : Related Q s t) {r r' : Raster} (made : Q r r') :
    Related Q (s.replace r) (t.replace r') :=
  ⟨related.settings_eq, made⟩

/-- An edit step keeps related sessions related and is answered alike by them. -/
theorem Related.step_edit (simulates : Raster.Simulates Q) {s t : Session} (related : Related Q s t)
    (e : Edit) :
    Answers Q (s.step (.ok (.edit e))).2 (t.step (.ok (.edit e))).2 ∧
      Related Q (s.step (.ok (.edit e))).1 (t.step (.ok (.edit e))).1 := by
  have left := s.step_takes e
  have right := t.step_takes e
  have plans := simulates.plan related.current e
  generalize leftPlan : e.plan s.current.raster.layout s.current.raster.size = x at left plans
  generalize rightPlan : e.plan t.current.raster.layout t.current.raster.size = y at right plans
  cases plans with
  | error fault =>
    simp only [Takes] at left right
    rw [left, right]
    exact ⟨.error fault, related⟩
  | ok plans =>
    cases plans with
    | none =>
      obtain ⟨notes, left, -⟩ := left
      obtain ⟨notes', right, -⟩ := right
      rw [left, right]
      exact ⟨.ok (.same related.current), related⟩
    | @some p q alike =>
      obtain ⟨r, text, made, -, -, left⟩ := left
      obtain ⟨r', text', made', -, -, right⟩ := right
      have works := simulates.make related.current leftPlan rightPlan alike made
        (related.settings_eq ▸ made')
      rw [left, right, ← related.settings_eq, ← alike.permit_eq]
      cases e.permit s.settings p with
      | error fault => exact ⟨.error fault, related⟩
      | ok _ => exact ⟨.ok (.fresh works), related.replace works⟩

/-- Runs of allowed steps go in lockstep if every allowed step does. -/
theorem run_related {allowed : Result Step → Prop}
    (lockstep : ∀ {s t : Session}, Related Q s t → ∀ step, allowed step →
      Answers Q (s.step step).2 (t.step step).2 ∧ Related Q (s.step step).1 (t.step step).1)
    {s t : Session} (related : Related Q s t) {steps : List (Result Step)}
    (permitted : ∀ step ∈ steps, allowed step) :
    List.Forall₂ (Answers Q) (s.run steps) (t.run steps) ∧
      Related Q (s.after steps) (t.after steps) := by
  induction steps generalizing s t with
  | nil => exact ⟨.nil, related⟩
  | cons step steps ih =>
    obtain ⟨answers, next⟩ := lockstep related step (permitted step List.mem_cons_self)
    obtain ⟨rest, final⟩ := ih next fun other member =>
      permitted other (List.mem_cons_of_mem _ member)
    exact ⟨.cons answers rest, final⟩

/-! ## Requests -/

/-- A step of a request: an edit, a change of the settings, or a step that could not be read. -/
inductive Requested : Result Step → Prop where
  | refused (fault : Failure) : Requested (.error fault)
  | edit (e : Edit) : Requested (.ok (.edit e))
  | configure (settings : Settings) : Requested (.ok (.configure settings))

theorem Related.step_requested (simulates : Raster.Simulates Q) {s t : Session}
    (related : Related Q s t) {step : Result Step} (requested : Requested step) :
    Answers Q (s.step step).2 (t.step step).2 ∧ Related Q (s.step step).1 (t.step step).1 := by
  cases requested with
  | refused fault => exact ⟨.error fault, related⟩
  | edit e => exact related.step_edit simulates e
  | configure settings => exact ⟨.ok (.configured settings), rfl, related.current⟩

end Session

end RasterEdit
