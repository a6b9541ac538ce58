import RasterEdit.Proofs.Journal.Run

/-!
# Lines of the log

Configuring the console again never doubles a record and never loses one: there is one handler from
the first configuration on, and it writes each record that is looked at as one event. An event takes
one line, except where the plain style shows the line breaks of a message or a logger, or a trace
below the line.
-/

set_option autoImplicit false

namespace RasterEdit.Journal

namespace Console

theorem handlers_after (settings : Settings) (done : List (Clock × Action)) :
    (start.after settings done).handlers = if done.any (·.2.isConfigure) then 1 else 0 := by
  have chosen : (latest? (·.2.style? settings) done).isSome = done.any (·.2.isConfigure) := by
    induction done using List.reverseRecOn with
    | nil => rfl
    | append_singleton done last ih =>
      obtain ⟨clock, action⟩ := last
      rw [latest?_concat, List.any_append, ← ih]
      cases action with
      | configure level format => simp [Action.style?, Action.isConfigure]
      | _ => simp [Action.style?, Action.isConfigure]
  rw [handlers, installed_after, ← chosen]
  cases latest? (·.2.style? settings) done with
  | none => rfl
  | some style => rfl

theorem lines_eventOf (c : Console) (style : Style) (time : String) (r : Record) :
    Printed.lines ⟨style, c.eventOf time r⟩ =
      match style with
      | .json => 1
      | .plain => 1 + lineBreaks r.message + lineBreaks r.logger + r.trace.lines := by
  cases style with
  | json => rfl
  | plain => exact c.lineCount_eventOf time r

theorem records_emit {level : Nat} {logger template text : String} {arguments : List Datum}
    {extras : Fields} {trace : Trace} (free : reserved? extras = none)
    (fits : message? template arguments = some text) (elapsed : String) :
    (Action.emit level logger template arguments extras trace).records elapsed =
      [⟨level, logger, text, extras, trace⟩] := by
  simp only [Action.records, free, fits, emitted]
  rfl

section Single

variable {settings : Settings} {done : List (Clock × Action)} {clock : Clock} {action : Action}
  {r : Record}

theorem prints_single (made : action.records clock.elapsed = [r]) :
    (start.after settings done).prints settings clock action =
      match latest? (·.2.style? settings) done with
      | none => []
      | some style =>
        if (start.after settings done).enables r.level then
          [⟨style, (start.after settings done).eventOf clock.time r⟩]
        else [] := by
  have record : action.isAnnounce = false := by
    cases action with
    | announce event => cases made
    | _ => rfl
  rw [prints_after settings done clock record, made]
  cases latest? (·.2.style? settings) done with
  | none => rfl
  | some style =>
    simp only [List.filter_cons, List.filter_nil]
    split <;> rfl

theorem prints_refused (made : action.records clock.elapsed = [r])
    (refused : latest? (·.2.style? settings) done = none ∨
      r.level < (start.after settings done).rootLevel) :
    (start.after settings done).prints settings clock action = [] := by
  rw [prints_single made]
  rcases refused with unconfigured | below
  · rw [unconfigured]
  · have ignored : (start.after settings done).enables r.level = false := by
      simp only [enables, decide_eq_false_iff_not]
      omega
    rw [ignored]
    cases latest? (·.2.style? settings) done with
    | none => rfl
    | some style => rfl

theorem prints_once (made : action.records clock.elapsed = [r]) (seen : 10 ≤ r.level)
    {style : Style} (chosen : latest? (·.2.style? settings) done = some style)
    (reached : (start.after settings done).rootLevel ≤ r.level) :
    (start.after settings done).prints settings clock action =
      [⟨style, (start.after settings done).eventOf clock.time r⟩] := by
  have enabled : (start.after settings done).enables r.level = true := by
    simp only [enables, decide_eq_true_eq]
    omega
  rw [prints_single made, chosen, enabled]
  rfl

end Single

/-- After any run there is one handler if the console was ever configured, the root level is that of
the last configuration that succeeded, and a record is written as one event, in the style of the
last configuration, if there was one and the level reaches the root level; otherwise not at all. -/
theorem records_written_once (settings : Settings) (done : List (Clock × Action)) :
    let c := start.after settings done
    let style? := latest? (·.2.style? settings) done
    c.handlers = (if done.any (·.2.isConfigure) then 1 else 0) ∧
    (∀ clock level format,
      (c.perform settings clock (.configure level format)).2.1 = .ok () ↔
        ((Action.configure level format).rank? settings).isSome) ∧
    c.rootLevel = (latest? (·.2.rank? settings) done).getD 30 ∧
    (∀ level logger template arguments extras trace text elapsed, reserved? extras = none →
      message? template arguments = some text →
      (Action.emit level logger template arguments extras trace).records elapsed =
        [⟨level, logger, text, extras, trace⟩]) ∧
    ∀ clock action r, action.records clock.elapsed = [r] → 10 ≤ r.level →
      (style? = none ∨ r.level < c.rootLevel → c.prints settings clock action = []) ∧
      ∀ style, style? = some style → c.rootLevel ≤ r.level →
        ∃ printed : Printed, c.prints settings clock action = [printed] ∧
          printed.style = style ∧
          printed.lines =
            match style with
            | .json => 1
            | .plain => 1 + lineBreaks r.message + lineBreaks r.logger + r.trace.lines := by
  intro c style?
  refine ⟨handlers_after settings done, c.configure_eq_ok settings, rootLevel_after settings done,
    ?_, ?_⟩
  · intro level logger template arguments extras trace text elapsed free fits
    exact records_emit free fits elapsed
  · intro clock action r made seen
    refine ⟨prints_refused made, ?_⟩
    intro style chosen reached
    exact ⟨_, prints_once made seen chosen reached, rfl, c.lines_eventOf style clock.time r⟩

theorem records_written_once_after_failure :
    let done : List (Clock × Action) := [(⟨"", ""⟩, .configure (some "X") (some "json"))]
    let c := start.after .default done
    c.handlers = 1 ∧ c.rootLevel = 30 ∧
      ∃ printed : Printed,
        c.prints .default ⟨"now", ""⟩ (.emit 30 "scan" "page" [] []) = [printed] ∧
          printed.style = .json ∧ printed.lines = 1 := by
  intro done c
  obtain ⟨handlers, -, rootLevel, -, written⟩ := records_written_once .default done
  have level : c.rootLevel = 30 := rootLevel.trans (by decide +kernel)
  have made : (Action.emit 30 "scan" "page" [] []).records "" =
      [⟨30, "scan", "page", [], .empty⟩] := rfl
  have once := (written ⟨"now", ""⟩ _ _ made (by decide)).2
  obtain ⟨printed, one, style, lines⟩ := once .json rfl (Nat.le_of_eq level)
  exact ⟨handlers, level, printed, one, style, lines⟩

/-- An exception stands below its record, here on two lines of its own. -/
example :
    ((⟨30, [.own .plain], .empty⟩ : Console).prints .default ⟨"", ""⟩
      (.emit 40 "a" "b" [] [] ⟨none, some "c\nd"⟩)).map Printed.lines = [3] := by
  decide +kernel

/-- In the plain style one record may take two lines, though its handler is the only one. -/
theorem broken_message_takes_two_lines :
    let c := start.after .default [(⟨"", ""⟩, .configure (some "INFO") (some "console"))]
    c.handlers = 1 ∧ c.rootLevel ≤ 20 ∧ message? "b\nc" [] = some "b\nc" ∧
      (c.prints .default ⟨"", ""⟩ (.emit 20 "a" "b\nc" [] [])).map Printed.lines = [2] := by
  decide +kernel

end Console

end RasterEdit.Journal
