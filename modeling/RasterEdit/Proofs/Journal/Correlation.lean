import RasterEdit.Proofs.Journal.Lines

/-!
# Correlation context

A value bound under a key stays until a later action gives another one or the context is cleared.
What is bound at the moment of a record is in its event, next to the operation fields among its
extras and its trace, and no other action of the run can be read off the event.
-/

set_option autoImplicit false

namespace RasterEdit.Journal.Console

/-- What is written of each record that is looked at: one event in the given style, which carries
the context and the record. -/
theorem prints_carry (settings : Settings) (done : List (Clock × Action)) {style : Style}
    (chosen : latest? (·.2.style? settings) done = some style) (clock : Clock) {action : Action}
    (record : action.isAnnounce = false) :
    let c := start.after settings done
    List.Forall₂ (fun r printed => printed.style = style ∧
        Carries c.context clock.time r printed.event)
      ((action.records clock.elapsed).filter fun r => c.enables r.level)
      (c.prints settings clock action) := by
  intro c
  have prints := prints_after settings done clock record
  simp only [chosen] at prints
  rw [prints, List.forall₂_map_right_iff]
  refine List.forall₂_same.mpr ?_
  intro r member
  exact ⟨rfl, carries_eventOf _ clock.time r⟩

/-- Each key is bound to the last value that was given for it since the context was cleared, and
once the console writes objects, every record that is looked at is written as one object that
carries those bindings, the record with its operation fields, and nothing else. -/
theorem context_is_last_writer (settings : Settings) (done : List (Clock × Action)) :
    let c := start.after settings done
    (∀ key, c.context.bound key = latest? (·.2.value? key) (sinceClear done)) ∧
    (latest? (·.2.style? settings) done = some .json → ∀ clock action, action.isAnnounce = false →
      List.Forall₂ (fun r printed => printed.style = .json ∧
          Carries c.context clock.time r printed.event)
        ((action.records clock.elapsed).filter fun r => c.enables r.level)
        (c.prints settings clock action)) := by
  intro c
  refine ⟨bound_after settings done, ?_⟩
  intro chosen clock action record
  exact prints_carry settings done chosen clock record

theorem context_survives_partial_binding :
    let done : List (Clock × Action) :=
      [(⟨"", ""⟩, .bind (some "req-1") (some "page-1")), (⟨"", ""⟩, .clear),
        (⟨"", ""⟩, .bind (some "req-2") none), (⟨"", ""⟩, .configure (some "INFO") (some "json")),
        (⟨"", ""⟩, .bind none (some "page-2"))]
    let c := start.after .default done
    c.context.bound .requestId = some "req-2" ∧ c.context.bound .identifier = some "page-2" ∧
      List.Forall₂ (fun r printed => printed.style = .json ∧
          Carries c.context "now" r printed.event)
        [⟨20, "scan", "done", [("operation", .text "crop")], .empty⟩]
        (c.prints .default ⟨"now", ""⟩
          (.emit 20 "scan" "done" [] [("operation", .text "crop")])) := by
  intro done c
  have chosen : latest? (·.2.style? .default) done = some .json := by decide +kernel
  have enabled : c.enables 20 = true := by decide +kernel
  obtain ⟨bound, written⟩ := context_is_last_writer .default done
  refine ⟨bound .requestId, bound .identifier, ?_⟩
  have carried := written chosen ⟨"now", ""⟩
    (Action.emit 20 "scan" "done" [] [("operation", .text "crop")]) rfl
  rw [records_emit rfl rfl, List.filter_cons, if_pos enabled] at carried
  exact carried

end RasterEdit.Journal.Console
