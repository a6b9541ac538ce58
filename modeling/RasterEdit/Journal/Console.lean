import RasterEdit.Journal.Entry
import RasterEdit.Journal.Template
import RasterEdit.Settings
import RasterEdit.Text.Uppercase

/-!
# The log console

Where log records go. Records are written by the handlers of the root logger, of which there is none
until the console is configured. Configuring it puts a handler of its own in place of the one from
before; then every record from the root level on is written, as an object of fields or as plain text,
together with the correlation context bound at that moment.
-/

set_option autoImplicit false

namespace RasterEdit

namespace Journal

inductive Style where
  | json | plain
deriving DecidableEq, Repr

def Style.ofName (name : String) : Style := if name = "json" then json else plain

structure Context where
  requestId : Option String
  identifier : Option String
deriving DecidableEq

namespace Context

def empty : Context := ⟨none, none⟩

/-- Binds the given values; a value not given keeps its binding. -/
def bind (c : Context) (requestId identifier : Option String) : Context :=
  ⟨requestId.or c.requestId, identifier.or c.identifier⟩

def toFields (c : Context) : Fields :=
  (c.requestId.toList.map fun s => ("request_id", Datum.text s))
    ++ c.identifier.toList.map fun s => ("identifier", Datum.text s)

end Context

/-- Texts that a record was made with beside its message: the stack of its caller, and the exception
that was being handled. -/
structure Trace where
  stack : Option String
  exception : Option String
deriving DecidableEq

namespace Trace

def empty : Trace := ⟨none, none⟩

def toFields (t : Trace) : Fields :=
  (t.stack.toList.map fun s => ("stack", Datum.text s))
    ++ t.exception.toList.map fun s => ("exception", Datum.text s)

end Trace

structure Record where
  level : Nat
  logger : String
  message : String
  extras : Fields
  trace : Trace

/-- Fields that a record may add to its event. -/
def operationFields : List String := ["operation", "input_size", "output_size", "elapsed_ms"]

/-- Names that belong to the record itself and cannot be given as extras. -/
def reservedNames : List String :=
  ["name", "msg", "args", "levelname", "levelno", "pathname", "filename", "module", "exc_info",
    "exc_text", "stack_info", "lineno", "funcName", "created", "msecs", "relativeCreated",
    "thread", "threadName", "processName", "process", "taskName", "message", "asctime"]

/-- Level names and their ranks. -/
def levelRanks : List (String × Nat) :=
  [("DEBUG", 10), ("INFO", 20), ("WARNING", 30), ("WARN", 30), ("ERROR", 40), ("CRITICAL", 50),
    ("FATAL", 50), ("NOTSET", 0)]

/-- A name beside the levels that stands for a text. -/
def basicFormat : String × String := ("BASIC_FORMAT", "%(levelname)s:%(name)s:%(message)s")

def levelRank (name : String) : Result Nat :=
  let upper := Text.upper name
  match levelRanks.find? (·.1 == upper) with
  | some (_, rank) => .ok rank
  | none =>
    if upper = basicFormat.1 then .error (.levelNotNumeric basicFormat.2)
    else .error (.unknownLevel upper)

def rankName (rank : Nat) : String :=
  if rank = 50 then "critical" else if rank = 40 then "error" else if rank = 30 then "warning"
  else if rank = 20 then "info" else if rank = 10 then "debug" else if rank = 0 then "notset"
  else s!"level {rank}"

/-- Sets a field, in place of one of that name. -/
def setField (fields : Fields) (name : String) (value : Datum) : Fields :=
  fields.filter (·.1 != name) ++ [(name, value)]

def setFields (fields new : Fields) : Fields :=
  new.foldl (fun fields (name, value) => setField fields name value) fields

/-- A handler of the root logger, which writes what it is given in its style. -/
structure Handler where
  name : String
  style : Style
deriving DecidableEq

/-- The handler that configuring installs, in the given style. -/
def Handler.own (style : Style) : Handler := ⟨"rasterops", style⟩

def Handler.isOwn (h : Handler) : Bool := h.name == "rasterops"

structure Console where
  rootLevel : Nat
  installed : List Handler
  context : Context
deriving DecidableEq

/-- What a step writes: whole events, or only how many lines. -/
inductive Written where
  | events (events : List Fields)
  | lines (count : Nat)

/-- An event of an application, with a title, if it has one, and fields of its own. -/
structure Event where
  level : Nat
  logger : String
  title : Option Datum
  fields : Fields

/-- The logger named by nothing is the root. -/
def loggerName (name : Option String) : String :=
  match name with
  | none => "root"
  | some s => if s = "" then "root" else s

namespace Console

def start : Console := ⟨30, [], .empty⟩

/-- How many handlers of its own are installed. -/
def handlers (c : Console) : Nat := c.installed.countP Handler.isOwn

def isConfigured (c : Console) : Bool := !c.installed.isEmpty

def given? : Option String → Option String
  | some s => if s = "" then none else some s
  | none => none

/-- Installs a handler in place of the one from before. -/
def install (c : Console) (style : Style) : Console :=
  { c with installed := c.installed.filter (!·.isOwn) ++ [.own style] }

/-- Installs a handler of the given style, then sets the root level. A level that does not exist
leaves the new handler and the old level. -/
def configure (c : Console) (settings : Settings) (level format : Option String) :
    Console × Result Unit :=
  let installed := c.install (.ofName ((given? format).getD settings.logFormat))
  match levelRank ((given? level).getD settings.logLevel) with
  | .ok rank => ({ installed with rootLevel := rank }, .ok ())
  | .error e => (installed, .error e)

def bind (c : Console) (requestId identifier : Option String) : Console :=
  { c with context := c.context.bind requestId identifier }

def clear (c : Console) : Console := { c with context := .empty }

def stamp (level : Nat) (logger time : String) : Fields :=
  [("level", .text (rankName level)), ("logger", .text logger), ("timestamp", .text time)]

/-- The event of a record: message, context, stamp, the operation fields among its extras, and its
trace. -/
def eventOf (c : Console) (time : String) (r : Record) : Fields :=
  let started := c.context.toFields ++ [("event", .text r.message)]
  let stamped := setFields started (stamp r.level r.logger time)
  let filled := setFields stamped (r.extras.filter fun (name, _) => operationFields.contains name)
  setFields filled r.trace.toFields

/-- The event of an application: its own fields, the context where they leave room, and the
stamp. Fields that ask for a trace are taken out. -/
def eventOfOwn (c : Console) (time : String) (e : Event) : Fields :=
  let own := setFields [] (e.fields ++ e.title.toList.map fun title => ("event", title))
  let filled := setFields c.context.toFields own
  (setFields filled (stamp e.level e.logger time)).filter fun (name, _) =>
    name != "stack_info" && name != "exc_info"

/-- Whether records of a level are looked at. The lowest level of all is none for a record. -/
def enables (c : Console) (level : Nat) : Bool := decide (0 < level ∧ c.rootLevel ≤ level)

def admits (c : Console) (level : Nat) : Bool := c.isConfigured && c.enables level

def record (c : Console) (time : String) (rs : List Record) : List Fields :=
  (rs.filter fun r => c.admits r.level).map (c.eventOf time)

def lineBreaks (s : String) : Nat := s.toList.count '\n'

/-- Fields whose texts the plain style shows as they are; in other texts it marks line breaks. -/
def bareNames : List String := ["event", "logger", "logger_name"]

/-- Line breaks that the plain style leaves in a field. -/
def fieldBreaks (name : String) : Datum → Nat
  | .text s => if bareNames.contains name then lineBreaks s else lineBreaks name
  | _ => lineBreaks name

/-- Lines that the plain style puts behind an event for a field of a trace. -/
def traceLines (event : Fields) (name : String) : Nat :=
  match event.get? name with
  | some (.text s) => 1 + lineBreaks s
  | _ => 0

/-- Lines that an event takes in the plain style. A rule separates its stack from its exception. -/
def lineCount (event : Fields) : Nat :=
  let stack := traceLines event "stack"
  let exception := traceLines event "exception"
  let rule := if 0 < stack ∧ 0 < exception then 3 else 0
  event.foldl (fun n (name, value) => n + fieldBreaks name value) (1 + stack + rule + exception)

/-- An event as a handler of some style writes it. -/
structure Printed where
  style : Style
  event : Fields

/-- Line breaks inside the texts of an object are escaped. -/
def Printed.lines (p : Printed) : Nat :=
  match p.style with
  | .json => 1
  | .plain => lineCount p.event

/-- Every handler writes every event. Where there is none, the events of applications are still
shown in the plain style. -/
def printed (c : Console) (events : List Fields) : List Printed :=
  if c.isConfigured then
    events.flatMap fun event => c.installed.map fun handler => ⟨handler.style, event⟩
  else events.map fun event => ⟨.plain, event⟩

/-- What is written of events; whole events only if the last handler writes objects. -/
def written (c : Console) (events : List Fields) : Written :=
  if c.installed.getLast?.map (·.style) = some .json then
    .events ((c.printed events).map (·.event))
  else .lines ((c.printed events).foldl (fun n printed => n + printed.lines) 0)

end Console

/-- A journal entry as a record, given the elapsed time. -/
def Entry.toRecord (e : Entry) (elapsed : String) : Record where
  level := e.level.rank
  logger := e.source
  message := e.message elapsed
  extras :=
    match e.completion with
    | none => []
    | some c =>
      let size (s : Size) : Datum := .items [.whole s.width, .whole s.height]
      [("operation", .text c.operation), ("input_size", size c.inputSize),
        ("output_size", size c.outputSize), ("elapsed_ms", .text elapsed)]
  trace := .empty

inductive Action where
  | configure (level format : Option String)
  | bind (requestId identifier : Option String)
  | clear
  | emit (level : Nat) (logger template : String) (arguments : List Datum) (extras : Fields)
      (trace : Trace := .empty)
  | complete (logger operation : String) (inputSize outputSize : Datum) (template : String)
      (arguments : List Datum)
  | announce (event : Event)
  | journal (entries : List Entry)

structure Clock where
  time : String
  elapsed : String

/-- A record from a template. One whose arguments do not fit is lost. -/
def emitted (level : Nat) (logger : String) (message : Option String) (extras : Fields)
    (trace : Trace) : List Record :=
  message.toList.map fun text => ⟨level, logger, text, extras, trace⟩

/-- The first extra that a record cannot have. -/
def reserved? (extras : Fields) : Option String :=
  (extras.find? fun (name, _) => reservedNames.contains name).map (·.1)

/-- The records that an action makes, given the elapsed time. -/
def Action.records (elapsed : String) : Action → List Record
  | .emit level logger template arguments extras trace =>
    match reserved? extras with
    | some _ => []
    | none => emitted level logger (message? template arguments) extras trace
  | .complete logger operation inputSize outputSize template arguments =>
    let message := (filled? (operation ++ "(): " ++ template) (.list arguments)).map fun text =>
      timed text elapsed
    emitted 20 logger message
      [("operation", .text operation), ("input_size", inputSize), ("output_size", outputSize),
        ("elapsed_ms", .text elapsed)] .empty
  | .journal entries => entries.map fun e => e.toRecord elapsed
  | .configure .. | .bind .. | .clear | .announce _ => []

namespace Console

/-- A record that is looked at cannot be made with a reserved extra. -/
def accept (c : Console) (level : Nat) (extras : Fields) : Result Unit :=
  match reserved? extras with
  | some name => if c.enables level then .error (.reservedExtra name) else .ok ()
  | none => .ok ()

/-- The console after an action, whether it succeeded, and the events written. Until the console
is configured, only applications' own events are written. -/
def perform (settings : Settings) (clock : Clock) (c : Console) (action : Action) :
    Console × Result Unit × List Fields :=
  let records := c.record clock.time (action.records clock.elapsed)
  match action with
  | .configure level format =>
    let (after, result) := c.configure settings level format
    (after, result, records)
  | .bind requestId identifier => (c.bind requestId identifier, .ok (), records)
  | .clear => (c.clear, .ok (), records)
  | .announce event =>
    let silent := c.isConfigured && decide (event.level < c.rootLevel)
    (c, .ok (), if silent then [] else [c.eventOfOwn clock.time event])
  | .emit level _ _ _ extras _ => (c, c.accept level extras, records)
  | .complete .. | .journal _ => (c, .ok (), records)

end Console

end Journal

end RasterEdit
