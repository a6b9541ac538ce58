import Mathlib.Data.List.Chain
import RasterEdit.Proofs.Raster.Buffer
import RasterEdit.Proofs.Session.Run

/-!
# The audit trail

Every new raster is reported by one entry at level INFO, under the name of its edit and with the
sizes before and after it; nothing else is. As long as no raster is loaded, the entries of a run
therefore lead from the size of its first raster to the size of its last one without a gap.
-/

set_option autoImplicit false

namespace RasterEdit

open Journal (Entry)

/-! ## Names of edits -/

namespace Edit

/-- The part of the library whose logger an edit writes to. -/
def part : Edit → String
  | crop .. => "crop"
  | scale .. => "scale"
  | rotate _ => "rotate"
  | flip _ => "transpose"
  | tone _ => "filters"
  | removeAlpha => "alpha"
  | normalize => "normalize"

/-- The name that an edit is logged and accounted under. -/
def operation : Edit → String
  | crop .. => "crop"
  | scale .. => "scale"
  | rotate _ => "rotate"
  | flip _ => "transpose"
  | tone _ => "filter"
  | removeAlpha => "remove_alpha"
  | normalize => "convert_custom_to_rgb"

theorem names_of_plan {e : Edit} {layout : Layout} {size : Size} {p : Plan}
    (planned : e.plan layout size = .ok (some p)) :
    p.part = e.part ∧ p.operation = e.operation := by
  cases planned_of_plan planned <;> exact ⟨rfl, rfl⟩

end Edit

/-! ## One edit -/

/-- An entry that reports an edit, with the sizes before and after it. -/
structure Journal.Entry.Reports (entry : Entry) (e : Edit) (before after : Size) : Prop where
  level_eq : entry.level = .info
  source_eq : entry.source = "rasterops.core." ++ e.part
  completion_eq : entry.completion = some ⟨e.operation, before, after⟩

/-- The entries of an answer; a step that fails leaves none. -/
def Journal.entriesOf : Result (Reply × List Entry) → List Entry
  | .ok (_, entries) => entries
  | .error _ => []

def Journal.infos (entries : List Entry) : List Entry := entries.filter (·.level = .info)

namespace Session

/-- What an edit of the raster `before` answers and logs, and the raster at hand after it. -/
inductive Audited (e : Edit) (before : Raster) :
    Result (Reply × List Entry) → Raster → Prop where
  | failed (fault : Failure) : Audited e before (.error fault) before
  | unchanged {notes : List Entry} (quiet : ∀ note ∈ notes, note.level ≠ .info) :
      Audited e before (.ok (.same before, notes)) before
  | produced {after : Raster} {entry : Entry} (reports : entry.Reports e before.size after.size) :
      Audited e before (.ok (.fresh after, [entry])) after

theorem step_audited (s : Session) (e : Edit) :
    Audited e s.current.raster (s.step (.ok (.edit e))).2
      (s.step (.ok (.edit e))).1.current.raster := by
  have takes := s.step_takes e
  cases planned : e.plan s.current.raster.layout s.current.raster.size with
  | error fault =>
    rw [planned] at takes
    rw [show s.step (.ok (.edit e)) = _ from takes]
    exact .failed fault
  | ok plan =>
    rw [planned] at takes
    cases plan with
    | none =>
      obtain ⟨notes, taken, idle⟩ := takes
      rw [taken]
      refine .unchanged ?_
      intro note member
      obtain ⟨part, text, rfl⟩ := idle note member
      exact nofun
    | some p =>
      obtain ⟨after, text, -, -, -, taken⟩ := takes
      obtain ⟨part_eq, operation_eq⟩ := Edit.names_of_plan planned
      rw [taken]
      cases e.permit s.settings p with
      | error fault => exact .failed fault
      | ok _ =>
        refine .produced ⟨rfl, ?_, ?_⟩
        · rw [← part_eq]
          rfl
        · rw [← operation_eq]
          rfl

/-! ## Runs without reloads -/

/-- Entries that lead from one size to another, each starting where the one before it ended. -/
inductive Trail : Size → List Entry → Size → Prop where
  | nil (size : Size) : Trail size [] size
  | cons {entry : Entry} {operation : String} {first middle last : Size} {rest : List Entry}
      (reported : entry.completion = some ⟨operation, first, middle⟩)
      (next : Trail middle rest last) : Trail first (entry :: rest) last

theorem Trail.append {first middle last : Size} {entries later : List Entry}
    (left : Trail first entries middle) (right : Trail middle later last) :
    Trail first (entries ++ later) last := by
  induction left with
  | nil size => exact right
  | cons reported next ih => exact .cons reported (ih right)

theorem Trail.isChain {first last : Size} {entries : List Entry}
    (trail : Trail first entries last) :
    entries.IsChain fun a b =>
      a.completion.map (·.outputSize) = b.completion.map (·.inputSize) := by
  induction trail with
  | nil size => exact .nil
  | cons reported next ih =>
    cases next with
    | nil size => exact .singleton _
    | cons reported' next' =>
      refine .cons_cons ?_ ih
      rw [reported, reported']
      rfl

theorem Audited.trail {e : Edit} {before after : Raster} {answer : Result (Reply × List Entry)}
    (audited : Audited e before answer after) :
    Trail before.size (Journal.infos (Journal.entriesOf answer)) after.size := by
  cases audited with
  | failed fault => exact .nil _
  | unchanged quiet =>
    rename_i notes
    have none : Journal.infos notes = [] := by
      refine List.filter_eq_nil_iff.mpr ?_
      intro note member
      simpa using quiet note member
    change Trail _ (Journal.infos notes) _
    rw [none]
    exact .nil _
  | @produced _ entry reports =>
    have kept : Journal.infos [entry] = [entry] := by
      simp [Journal.infos, reports.level_eq]
    change Trail _ (Journal.infos [entry]) _
    rw [kept]
    exact .cons reports.completion_eq (.nil _)

/-- The steps beside edits log nothing, and only loading a raster changes the size. -/
theorem step_trail (s : Session) {step : Result Step}
    (unloaded : ∀ name, step ≠ .ok (.load name)) :
    Trail s.current.raster.size (Journal.infos (Journal.entriesOf (s.step step).2))
      (s.step step).1.current.raster.size := by
  have still {after : Raster} (size_eq : after.size = s.current.raster.size) :
      Trail s.current.raster.size [] after.size := by
    rw [size_eq]
    exact .nil _
  cases step with
  | error fault => exact .nil _
  | ok step =>
    cases step with
    | edit e => exact (s.step_audited e).trail
    | throughPicture =>
      simp only [Session.step, Except.bind, next?]
      cases pictured : s.current.raster.toPicture "raster_to_image" with
      | error fault => exact .nil _
      | ok picture =>
        exact still ((Raster.size_adoptPicture picture).trans (Raster.size_of_toPicture pictured))
    | relayout layout =>
      simp only [Session.step, Except.bind, next?]
      cases pictured : s.current.raster.toPicture "raster_to_image" with
      | error fault => exact .nil _
      | ok picture =>
        simp only [Result.ok_bind]
        cases taken : Raster.ofPicture layout picture with
        | error fault => exact .nil _
        | ok after =>
          exact still ((Raster.size_of_ofPicture taken).trans (Raster.size_of_toPicture pictured))
    | retag layout =>
      simp only [Session.step, Except.bind, next?]
      cases read : Raster.ofBlock layout s.current.raster.toBlock with
      | error fault => exact .nil _
      | ok after =>
        exact still ((Raster.size_of_ofBlock read).trans (Raster.shape_toBlock _).symm)
    | keep name => exact .nil _
    | load name => exact absurd rfl (unloaded name)
    | compare name =>
      simp only [Session.step, Except.bind, next?]
      cases s.lookup name with
      | error fault => exact .nil _
      | ok tracked => exact .nil _
    | configure settings => exact .nil _

theorem run_trail (s : Session) {steps : List (Result Step)}
    (unloaded : ∀ step ∈ steps, ∀ name, step ≠ .ok (.load name)) :
    Trail s.current.raster.size (Journal.infos ((s.run steps).flatMap Journal.entriesOf))
      (s.after steps).current.raster.size := by
  induction steps generalizing s with
  | nil => exact .nil _
  | cons step steps ih =>
    have first := s.step_trail (unloaded step List.mem_cons_self)
    have rest := ih (s.step step).1 fun other member =>
      unloaded other (List.mem_cons_of_mem _ member)
    have split : Journal.infos ((s.run (step :: steps)).flatMap Journal.entriesOf) =
        Journal.infos (Journal.entriesOf (s.step step).2) ++
          Journal.infos (((s.step step).1.run steps).flatMap Journal.entriesOf) := by
      simp only [run, List.flatMap_cons, Journal.infos, List.filter_append]
    rw [split, after_cons]
    exact first.append rest

/-- After any run, an edit that makes a raster logs one entry, which reports it at level INFO; an
edit that leaves its raster logs nothing at that level, and one that fails logs nothing. The INFO
entries of a run that loads no raster lead from its first size to its last one, each from the size
where the one before it ended. -/
theorem log_is_audit_trail (settings : Settings) (r : Raster) (done : List (Result Step)) :
    let s := (start settings r).after done
    (∀ e : Edit, Audited e s.current.raster (s.step (.ok (.edit e))).2
      (s.step (.ok (.edit e))).1.current.raster) ∧
    ∀ steps : List (Result Step), (∀ step ∈ steps, ∀ name, step ≠ .ok (.load name)) →
      let infos := Journal.infos ((s.run steps).flatMap Journal.entriesOf)
      Trail s.current.raster.size infos (s.after steps).current.raster.size ∧
        infos.IsChain fun a b =>
          a.completion.map (·.outputSize) = b.completion.map (·.inputSize) := by
  intro s
  refine ⟨s.step_audited, ?_⟩
  intro steps unloaded infos
  have trail := s.run_trail unloaded
  exact ⟨trail, trail.isChain⟩

theorem log_is_audit_trail_of_crop :
    let s := start .default (.gray ⟨2, 1, #[7, 9], rfl⟩)
    let steps : List (Result Step) := [.ok (.edit (.flip .horizontal)), .ok .throughPicture,
      .ok (.edit (.crop ⟨.pixels, 1, 0, 1, 1, false⟩ .none))]
    let infos := Journal.infos ((s.run steps).flatMap Journal.entriesOf)
    infos.map (·.completion) =
        [some ⟨"transpose", ⟨2, 1⟩, ⟨2, 1⟩⟩, some ⟨"crop", ⟨2, 1⟩, ⟨1, 1⟩⟩] ∧
      infos.IsChain fun a b =>
        a.completion.map (·.outputSize) = b.completion.map (·.inputSize) := by
  intro s steps infos
  have audited := (log_is_audit_trail .default (.gray ⟨2, 1, #[7, 9], rfl⟩) []).2 steps
  refine ⟨by decide +kernel, (audited ?_).2⟩
  intro step member name
  simp only [steps, List.mem_cons, List.not_mem_nil, or_false] at member
  rcases member with rfl | rfl | rfl <;> nofun

end Session

end RasterEdit
