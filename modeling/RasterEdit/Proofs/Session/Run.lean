import RasterEdit.Proofs.Edit.Plan
import RasterEdit.Session

/-!
# Runs of sessions

The session that a list of steps leaves, and what one edit step can do to a session: fail as its
plan or the checks of the planned size say, answer the raster it was given, or put the planned raster in its place.
-/

set_option autoImplicit false

namespace RasterEdit

namespace Session

/-- The session that is left after a list of steps. -/
def after (s : Session) (steps : List (Result Step)) : Session :=
  steps.foldl (fun s step => (s.step step).1) s

@[simp] theorem after_nil (s : Session) : s.after [] = s := rfl

@[simp] theorem after_cons (s : Session) (step : Result Step) (steps : List (Result Step)) :
    s.after (step :: steps) = (s.step step).1.after steps := rfl

theorem after_append (s : Session) (done later : List (Result Step)) :
    s.after (done ++ later) = (s.after done).after later := by
  simp [after]

/-! ## One edit -/

theorem step_edit (s : Session) (e : Edit) :
    s.step (.ok (.edit e)) =
      match e.apply s.settings s.current.raster with
      | .error fault => (s, .error fault)
      | .ok (.unchanged note) => (s, .ok (.same s.current.raster, note.toList))
      | .ok (.produced after entry) => (s.replace after, .ok (.fresh after, [entry])) := by
  simp only [step, Except.bind, next?]
  cases e.apply s.settings s.current.raster with
  | error fault => rfl
  | ok outcome =>
    cases outcome with
    | unchanged note => rfl
    | produced after entry => rfl

theorem step_edit_cases (s : Session) (e : Edit) :
    (s.step (.ok (.edit e))).1 = s ∨
      ∃ after entries, (s.step (.ok (.edit e))).2 = .ok (.fresh after, entries) ∧
        (s.step (.ok (.edit e))).1 = s.replace after := by
  rw [step_edit]
  cases e.apply s.settings s.current.raster with
  | error fault => exact .inl rfl
  | ok outcome =>
    cases outcome with
    | unchanged note => exact .inl rfl
    | produced after entry => exact .inr ⟨after, [entry], rfl, rfl⟩

/-- How an edit step carries out what was planned for its edit. -/
def Takes (s : Session) (e : Edit) : Result (Option Plan) → Prop
  | .error fault => s.step (.ok (.edit e)) = (s, .error fault)
  | .ok none => ∃ notes : List Journal.Entry,
      s.step (.ok (.edit e)) = (s, .ok (.same s.current.raster, notes)) ∧
        ∀ entry ∈ notes, ∃ part text, entry = .idle part text
  | .ok (some p) => ∃ after text,
      e.make s.settings p.size s.current.raster = .ok after ∧ after.layout = p.layout ∧
        after.size = p.size ∧
        s.step (.ok (.edit e)) =
          match e.permit s.settings p with
          | .error fault => (s, .error fault)
          | .ok () => (s.replace after, .ok (.fresh after,
              [.completed p.part p.operation s.current.raster.size after.size text]))

theorem step_takes (s : Session) (e : Edit) :
    s.Takes e (e.plan s.current.raster.layout s.current.raster.size) := by
  have follows := e.apply_follows s.settings s.current.raster
  cases planned : e.plan s.current.raster.layout s.current.raster.size with
  | error fault =>
    rw [planned] at follows
    simp only [Edit.Follows] at follows
    simp only [Takes, step_edit, follows]
  | ok plan =>
    rw [planned] at follows
    cases plan with
    | none =>
      obtain ⟨note, applied, idle⟩ := follows
      refine ⟨note.toList, ?_, ?_⟩
      · rw [step_edit, applied]
      · intro entry member
        exact idle entry (Option.mem_toList.mp member)
    | some p =>
      obtain ⟨after, text, made, layout_eq, size_eq, applied⟩ := follows
      refine ⟨after, text, made, layout_eq, size_eq, ?_⟩
      rw [step_edit, applied]
      cases e.permit s.settings p with
      | error fault => rfl
      | ok _ => rfl

/-- A new raster is the work of a plan that was permitted. -/
theorem fresh_planned {s : Session} {e : Edit} {after : Raster} {entries : List Journal.Entry}
    (answered : (s.step (.ok (.edit e))).2 = .ok (.fresh after, entries)) :
    ∃ p, e.plan s.current.raster.layout s.current.raster.size = .ok (some p) ∧
      e.make s.settings p.size s.current.raster = .ok after ∧ after.layout = p.layout ∧
      after.size = p.size ∧ e.permit s.settings p = .ok () ∧
      (s.step (.ok (.edit e))).1 = s.replace after := by
  have takes := s.step_takes e
  cases planned : e.plan s.current.raster.layout s.current.raster.size with
  | error fault =>
    rw [planned] at takes
    rw [show s.step (.ok (.edit e)) = _ from takes] at answered
    cases answered
  | ok plan =>
    rw [planned] at takes
    cases plan with
    | none =>
      obtain ⟨notes, taken, -⟩ := takes
      rw [taken] at answered
      cases answered
    | some p =>
      obtain ⟨made, text, works, layout_eq, size_eq, taken⟩ := takes
      cases checked : e.permit s.settings p with
      | error fault =>
        rw [taken, checked] at answered
        cases answered
      | ok _ =>
        rw [checked] at taken
        rw [taken] at answered
        cases answered
        exact ⟨p, rfl, works, layout_eq, size_eq, checked, by rw [taken]⟩

/-! ## Replies -/

/-- What an edit step answers, its log entries aside. -/
def reply (s : Session) (e : Edit) : Result Reply := (s.step (.ok (.edit e))).2.map Prod.fst

/-- The reply is decided by the plan and the checks of its size, and only then by the work. -/
theorem reply_eq (s : Session) (e : Edit) :
    s.reply e = (e.plan s.current.raster.layout s.current.raster.size >>= fun plan =>
      match plan with
      | none => .ok (.same s.current.raster)
      | some p => e.permit s.settings p >>= fun _ =>
          (e.make s.settings p.size s.current.raster).map .fresh) := by
  have takes := s.step_takes e
  cases planned : e.plan s.current.raster.layout s.current.raster.size with
  | error fault =>
    rw [planned] at takes
    rw [reply, show s.step (.ok (.edit e)) = _ from takes]
    rfl
  | ok plan =>
    rw [planned] at takes
    cases plan with
    | none =>
      obtain ⟨notes, taken, -⟩ := takes
      rw [reply, taken]
      rfl
    | some p =>
      obtain ⟨after, text, made, -, -, taken⟩ := takes
      rw [reply, taken, Result.ok_bind]
      simp only [made]
      cases e.permit s.settings p <;> rfl

end Session

end RasterEdit
