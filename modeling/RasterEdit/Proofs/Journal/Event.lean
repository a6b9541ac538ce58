import Mathlib.Data.List.Nodup
import RasterEdit.Journal.Console

/-!
# Events of records

The event of a record has a field for everything that the record and the context say, and no other
field. In the plain style it takes one line, one more for each line break of its message and of its
logger, and the lines of its trace.
-/

set_option autoImplicit false

namespace RasterEdit

/-! ## Fields by name -/

namespace Fields

theorem get?_append (fields later : Fields) (key : String) :
    (fields ++ later).get? key = (later.get? key).or (fields.get? key) := by
  simp only [get?, List.reverse_append, List.find?_append, Option.map_or]

theorem get?_singleton (name key : String) (value : Datum) :
    get? [(name, value)] key = if name = key then some value else none := by
  by_cases same : name = key
  · simp [get?, same]
  · simp [get?, same]

theorem get?_cons (name key : String) (value : Datum) (rest : Fields) :
    get? ((name, value) :: rest) key =
      (rest.get? key).or (if name = key then some value else none) := by
  rw [← get?_singleton]
  exact get?_append [(name, value)] rest key

theorem get?_filter (keep : String → Bool) (fields : Fields) (key : String) :
    get? (fields.filter fun field => keep field.1) key =
      if keep key then fields.get? key else none := by
  induction fields with
  | nil => simp [get?]
  | cons field rest ih =>
    obtain ⟨name, value⟩ := field
    rw [List.filter_cons]
    by_cases same : name = key
    · subst same
      cases kept : keep name with
      | true =>
        simp only [kept, ↓reduceIte] at ih ⊢
        rw [get?_cons, get?_cons, ih]
      | false =>
        simp only [kept, Bool.false_eq_true, ↓reduceIte] at ih ⊢
        exact ih
    · have passed : get? ((name, value) :: rest) key = get? rest key := by
        rw [get?_cons, if_neg same, Option.or_none]
      split
      · rw [get?_cons, if_neg same, Option.or_none, ih, passed]
      · rw [ih, passed]

theorem get?_option (name key : String) (value : Option String) :
    get? (value.toList.map fun s => (name, .text s)) key =
      if name = key then value.map .text else none := by
  cases value with
  | none => simp [get?]
  | some s => exact get?_singleton name key (.text s)

theorem get?_options {first second : String} (distinct : first ≠ second) (a b : Option String)
    (key : String) :
    get? ((a.toList.map fun s => (first, .text s)) ++ b.toList.map fun s => (second, .text s)) key =
      if second = key then b.map .text else if first = key then a.map .text else none := by
  rw [get?_append, get?_option, get?_option]
  split
  · next same =>
    rw [if_neg fun other => distinct (other.trans same.symm), Option.or_none]
  · rfl

end Fields

namespace Journal

theorem get?_setField (fields : Fields) (name key : String) (value : Datum) :
    (setField fields name value).get? key =
      if name = key then some value else fields.get? key := by
  have others := Fields.get?_filter (· != name) fields key
  rw [setField, Fields.get?_append, Fields.get?_singleton]
  split
  · rfl
  · next other =>
    rw [Option.none_or, others, if_pos (by simpa using Ne.symm other)]

theorem get?_setFields (fields new : Fields) (key : String) :
    (setFields fields new).get? key = (new.get? key).or (fields.get? key) := by
  induction new generalizing fields with
  | nil => rfl
  | cons field rest ih =>
    obtain ⟨name, value⟩ := field
    have step : setFields fields ((name, value) :: rest) =
        setFields (setField fields name value) rest := rfl
    rw [step, ih, get?_setField, Fields.get?_cons]
    by_cases same : name = key
    · simp [same]
    · simp [same]

theorem nodup_setField {fields : Fields} (unique : (fields.map (·.1)).Nodup) (name : String)
    (value : Datum) : ((setField fields name value).map (·.1)).Nodup := by
  have kept : ((fields.filter (·.1 != name)).map (·.1)).Nodup :=
    unique.sublist (List.filter_sublist.map _)
  rw [setField, List.map_append, List.nodup_append]
  refine ⟨kept, List.nodup_singleton _, ?_⟩
  intro before member after single
  obtain ⟨field, inside, rfl⟩ := List.mem_map.mp member
  obtain rfl : after = name := by simpa using single
  simpa using (List.mem_filter.mp inside).2

theorem nodup_setFields {fields : Fields} (unique : (fields.map (·.1)).Nodup) (new : Fields) :
    ((setFields fields new).map (·.1)).Nodup := by
  induction new generalizing fields with
  | nil => exact unique
  | cons field rest ih => exact ih (nodup_setField unique field.1 field.2)

/-! ## What an event carries -/

/-- The two names under which context is bound. -/
inductive Key where
  | requestId | identifier
deriving DecidableEq

def Key.name : Key → String
  | requestId => "request_id"
  | identifier => "identifier"

def Context.bound (c : Context) : Key → Option String
  | .requestId => c.requestId
  | .identifier => c.identifier

/-- The fields that every record has. -/
def ownNames : List String := ["event", "level", "logger", "timestamp"]

def traceNames : List String := ["stack", "exception"]

/-- The event says what the record and the context say, each once, and nothing else. -/
structure Carries (context : Context) (time : String) (r : Record) (event : Fields) : Prop where
  unique : (event.map (·.1)).Nodup
  message : event.get? "event" = some (.text r.message)
  level : event.get? "level" = some (.text (rankName r.level))
  logger : event.get? "logger" = some (.text r.logger)
  timestamp : event.get? "timestamp" = some (.text time)
  bound : ∀ key : Key, event.get? key.name = (context.bound key).map .text
  operation : ∀ name ∈ operationFields, event.get? name = r.extras.get? name
  stack : event.get? "stack" = r.trace.stack.map .text
  exception : event.get? "exception" = r.trace.exception.map .text
  nothing_else : ∀ name, (event.get? name).isSome →
    name ∈ ownNames ++ [Key.requestId.name, Key.identifier.name] ++ operationFields ++ traceNames

/-- Lines that a trace takes below its event: those of its texts, and three between two of them. -/
def Trace.lines : Trace → Nat
  | ⟨none, none⟩ => 0
  | ⟨some stack, none⟩ => 1 + Console.lineBreaks stack
  | ⟨none, some exception⟩ => 1 + Console.lineBreaks exception
  | ⟨some stack, some exception⟩ =>
    1 + Console.lineBreaks stack + 3 + (1 + Console.lineBreaks exception)

theorem Context.get?_toFields (c : Context) (name : String) :
    c.toFields.get? name =
      if "identifier" = name then c.identifier.map .text
      else if "request_id" = name then c.requestId.map .text else none :=
  Fields.get?_options (by decide) ..

theorem Trace.get?_toFields (t : Trace) (name : String) :
    t.toFields.get? name =
      if "exception" = name then t.exception.map .text
      else if "stack" = name then t.stack.map .text else none :=
  Fields.get?_options (by decide) ..

theorem Context.nodup_toFields (c : Context) : (c.toFields.map (·.1)).Nodup := by
  obtain ⟨requestId, identifier⟩ := c
  cases requestId <;> cases identifier <;> simp [toFields]

namespace Console

theorem get?_stamp (level : Nat) (logger time key : String) :
    Fields.get? (stamp level logger time) key =
      if "timestamp" = key then some (.text time)
      else if "logger" = key then some (.text logger)
      else if "level" = key then some (.text (rankName level)) else none := by
  rw [stamp, Fields.get?_cons, Fields.get?_cons, Fields.get?_singleton]
  split
  · rfl
  · split <;> rfl

theorem get?_eventOf (c : Console) (time : String) (r : Record) (key : String) :
    (c.eventOf time r).get? key =
      (r.trace.toFields.get? key).or
        (((if operationFields.contains key then r.extras.get? key else none).or
          (Fields.get? (stamp r.level r.logger time) key)).or
        ((if "event" = key then some (.text r.message) else none).or
          (c.context.toFields.get? key))) := by
  have operation := Fields.get?_filter operationFields.contains r.extras key
  rw [eventOf, get?_setFields, get?_setFields, get?_setFields, Fields.get?_append,
    Fields.get?_singleton, operation, Option.or_assoc]

/-- No two sources of an event have a name in common, so none hides what another one says. -/
theorem carries_eventOf (c : Console) (time : String) (r : Record) :
    Carries c.context time r (c.eventOf time r) where
  unique := by
    have start :
        (List.map Prod.fst (c.context.toFields ++ [("event", Datum.text r.message)])).Nodup := by
      have absent : "event" ∉ c.context.toFields.map (·.1) := by
        simp [Context.toFields]
      rw [List.map_append, List.nodup_append]
      refine ⟨c.context.nodup_toFields, List.nodup_singleton _, ?_⟩
      rintro name member other single rfl
      obtain rfl : name = "event" := by simpa using single
      exact absent member
    exact nodup_setFields (nodup_setFields (nodup_setFields start _) _) _
  message := by simp [get?_eventOf, get?_stamp, Trace.get?_toFields, operationFields]
  level := by simp [get?_eventOf, get?_stamp, Trace.get?_toFields, operationFields]
  logger := by simp [get?_eventOf, get?_stamp, Trace.get?_toFields, operationFields]
  timestamp := by simp [get?_eventOf, get?_stamp, Trace.get?_toFields, operationFields]
  bound := by
    intro key
    cases key with
    | requestId =>
      simp [get?_eventOf, get?_stamp, Trace.get?_toFields, Context.get?_toFields, operationFields,
        Key.name, Context.bound]
    | identifier =>
      simp [get?_eventOf, get?_stamp, Trace.get?_toFields, Context.get?_toFields, operationFields,
        Key.name, Context.bound]
  operation := by
    intro name member
    have others : Fields.get? (stamp r.level r.logger time) name = none ∧ "event" ≠ name ∧
        c.context.toFields.get? name = none ∧ r.trace.toFields.get? name = none := by
      simp only [operationFields, List.mem_cons, List.not_mem_nil, or_false] at member
      rcases member with rfl | rfl | rfl | rfl <;>
        simp [get?_stamp, Context.get?_toFields, Trace.get?_toFields]
    obtain ⟨unstamped, notEvent, unbound, untraced⟩ := others
    rw [get?_eventOf, unstamped, unbound, untraced, if_neg notEvent, if_pos (by simpa using member)]
    simp
  stack := by
    simp [get?_eventOf, get?_stamp, Trace.get?_toFields, Context.get?_toFields, operationFields]
  exception := by
    simp [get?_eventOf, get?_stamp, Trace.get?_toFields, Context.get?_toFields, operationFields]
  nothing_else := by
    intro name present
    by_contra absent
    simp only [ownNames, Key.name, traceNames, List.mem_append, List.mem_cons, List.not_mem_nil,
      or_false, not_or] at absent
    simp [get?_eventOf, get?_stamp, Trace.get?_toFields, Context.get?_toFields, absent,
      eq_comm (b := name)] at present

/-! ## Lines -/

/-- Line breaks that the plain style leaves in all fields of an event. -/
def breaks : Fields → Nat
  | [] => 0
  | (name, value) :: rest => fieldBreaks name value + breaks rest

theorem breaks_append (event later : Fields) :
    breaks (event ++ later) = breaks event + breaks later := by
  induction event with
  | nil => exact (Nat.zero_add _).symm
  | cons field rest ih =>
    obtain ⟨name, value⟩ := field
    rw [List.cons_append, breaks, breaks, ih, Nat.add_assoc]

private theorem foldl_breaks (event : Fields) (start : Nat) :
    event.foldl (fun n (name, value) => n + fieldBreaks name value) start =
      start + breaks event := by
  induction event generalizing start with
  | nil => rfl
  | cons field rest ih =>
    obtain ⟨name, value⟩ := field
    rw [List.foldl_cons, ih, breaks, Nat.add_assoc]

theorem lineCount_of_traced {event : Fields} {trace : Trace}
    (stack : event.get? "stack" = trace.stack.map .text)
    (exception : event.get? "exception" = trace.exception.map .text) :
    lineCount event = 1 + trace.lines + breaks event := by
  unfold lineCount
  rw [foldl_breaks]
  refine congrArg (· + breaks event) ?_
  obtain ⟨stackText, exceptionText⟩ := trace
  cases stackText with
  | none => cases exceptionText <;> simp [traceLines, stack, exception, Trace.lines]
  | some stackText =>
    cases exceptionText with
    | none => simp [traceLines, stack, exception, Trace.lines]
    | some exceptionText =>
      simp only [traceLines, stack, exception, Option.map_some, Trace.lines]
      rw [if_pos (by omega)]
      omega

/-- A field of such a name never has a line break. -/
def Plain (name : String) : Prop := ∀ value, fieldBreaks name value = 0

theorem plain_of_names {name : String} (bare : bareNames.contains name = false)
    (flat : lineBreaks name = 0) : Plain name := by
  intro value
  cases value with
  | text s => simp only [fieldBreaks, bare, Bool.false_eq_true, ↓reduceIte, flat]
  | _ => exact flat

theorem breaks_setField {name : String} (plain : Plain name) (fields : Fields) (value : Datum) :
    breaks (setField fields name value) = breaks fields := by
  have kept : breaks (fields.filter (·.1 != name)) = breaks fields := by
    induction fields with
    | nil => rfl
    | cons field rest ih =>
      obtain ⟨other, given⟩ := field
      rw [List.filter_cons, breaks]
      by_cases same : other = name
      · subst same
        simp only [bne_self_eq_false, Bool.false_eq_true, ↓reduceIte]
        rw [ih, plain given, Nat.zero_add]
      · simp only [bne_iff_ne, ne_eq, same, not_false_eq_true, ↓reduceIte]
        rw [breaks, ih]
  have added : breaks [(name, value)] = 0 := by
    simpa [breaks] using plain value
  rw [setField, breaks_append, kept, added, Nat.add_zero]

theorem breaks_setField_of_absent {fields : Fields} {name : String}
    (absent : fields.get? name = none) (value : Datum) :
    breaks (setField fields name value) = breaks fields + fieldBreaks name value := by
  have untouched : fields.filter (·.1 != name) = fields := by
    simp only [Fields.get?, Option.map_eq_none_iff, List.find?_eq_none, List.mem_reverse,
      beq_iff_eq] at absent
    refine List.filter_eq_self.mpr ?_
    intro field member
    simpa using absent field member
  rw [setField, breaks_append, untouched]
  simp [breaks]

theorem breaks_setFields {new : Fields} (plain : ∀ field ∈ new, Plain field.1) (fields : Fields) :
    breaks (setFields fields new) = breaks fields := by
  induction new generalizing fields with
  | nil => rfl
  | cons field rest ih =>
    have first := plain field List.mem_cons_self
    have others := ih fun other member => plain other (List.mem_cons_of_mem field member)
    exact (others (setField fields field.1 field.2)).trans (breaks_setField first fields field.2)

theorem plain_of_mem_operationFields {name : String} (member : name ∈ operationFields) :
    Plain name := by
  simp only [operationFields, List.mem_cons, List.not_mem_nil, or_false] at member
  rcases member with rfl | rfl | rfl | rfl <;> exact plain_of_names (by decide) (by decide)

/-- The texts of a trace have their own lines; their fields add none. -/
theorem plain_of_mem_trace {trace : Trace} {field : String × Datum}
    (member : field ∈ trace.toFields) : Plain field.1 := by
  have stack : Plain "stack" := plain_of_names (by decide) (by decide)
  have exception : Plain "exception" := plain_of_names (by decide) (by decide)
  simp only [Trace.toFields, List.mem_append, List.mem_map] at member
  rcases member with ⟨text, -, rfl⟩ | ⟨text, -, rfl⟩
  · exact stack
  · exact exception

theorem breaks_toFields (context : Context) : breaks context.toFields = 0 := by
  have requestId : Plain "request_id" := plain_of_names (by decide) (by decide)
  have identifier : Plain "identifier" := plain_of_names (by decide) (by decide)
  obtain ⟨first, second⟩ := context
  cases first <;> cases second <;>
    simp [Context.toFields, breaks, requestId (.text _), identifier (.text _)]

/-- In the plain style only the message and the name of the logger can break the line of an event,
and only its trace is put below. -/
theorem lineCount_eventOf (c : Console) (time : String) (r : Record) :
    lineCount (c.eventOf time r) =
      1 + lineBreaks r.message + lineBreaks r.logger + r.trace.lines := by
  have carries := c.carries_eventOf time r
  have extras : ∀ field ∈ r.extras.filter (fun (name, _) => operationFields.contains name),
      Plain field.1 := by
    intro field member
    exact plain_of_mem_operationFields (by simpa using (List.mem_filter.mp member).2)
  have level : Plain "level" := plain_of_names (by decide) (by decide)
  have timestamp : Plain "timestamp" := plain_of_names (by decide) (by decide)
  have eventBreaks : breaks (c.eventOf time r) = lineBreaks r.message + lineBreaks r.logger := by
    rw [eventOf]
    generalize start_eq : c.context.toFields ++ [("event", Datum.text r.message)] = start
    have startBreaks : breaks start = lineBreaks r.message := by
      rw [← start_eq, breaks_append, breaks_toFields, Nat.zero_add]
      rfl
    have unnamed : (setField start "level" (.text (rankName r.level))).get? "logger" = none := by
      rw [get?_setField, ← start_eq, Fields.get?_append, Fields.get?_singleton,
        Context.get?_toFields]
      rfl
    have stamped : setFields start (stamp r.level r.logger time) =
        setField (setField (setField start "level" (.text (rankName r.level))) "logger"
          (.text r.logger)) "timestamp" (.text time) := rfl
    rw [breaks_setFields fun _ => plain_of_mem_trace, breaks_setFields extras, stamped,
      breaks_setField timestamp, breaks_setField_of_absent unnamed, breaks_setField level,
      startBreaks]
    rfl
  rw [lineCount_of_traced carries.stack carries.exception, eventBreaks]
  omega

end Console

end Journal

end RasterEdit
