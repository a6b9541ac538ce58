import RasterEdit.Edit.Basic

/-!
# Sessions

A run of steps on one raster at a time. Rasters carry serial numbers, so that it can be told
whether a step gave back the very raster it was given. A step that fails leaves the session as it
is.
-/

set_option autoImplicit false

namespace RasterEdit

/-- A raster and the number it was made under. -/
structure Tracked where
  serial : Nat
  raster : Raster

structure Session where
  settings : Settings
  current : Tracked
  nextSerial : Nat
  kept : List (String × Tracked)

inductive Step where
  | edit (e : Edit)
  | throughPicture
  | relayout (layout : Layout)
  | retag (layout : Layout)
  | keep (name : String)
  | load (name : String)
  | compare (name : String)
  | configure (settings : Settings)

inductive Reply where
  | same (raster : Raster)
  | fresh (raster : Raster)
  | kept (names : List String)
  | loaded (raster : Raster)
  | compared (equal identical : Bool)
  | configured (settings : Settings)

namespace Session

def start (settings : Settings) (raster : Raster) : Session :=
  ⟨settings, ⟨0, raster⟩, 1, []⟩

def replace (s : Session) (raster : Raster) : Session :=
  { s with current := ⟨s.nextSerial, raster⟩, nextSerial := s.nextSerial + 1 }

def lookup (s : Session) (name : String) : Result Tracked :=
  match s.kept.find? (·.1 == name) with
  | some (_, tracked) => .ok tracked
  | none => .error (.notKept name)

/-- Remembers the current raster under a name, in place of what was there. -/
def keep (s : Session) (name : String) : Session :=
  { s with kept := (name, s.current) :: s.kept.filter (·.1 != name) }

def keptNames (s : Session) : List String :=
  (s.kept.map (·.1)).mergeSort fun a b => decide (a ≤ b)

/-- The session after a step, what the step answers and what it logs. -/
def next? (s : Session) (step : Step) : Result (Session × Reply × List Journal.Entry) := do
  let before := s.current.raster
  match step with
  | .edit e =>
    match ← e.apply s.settings before with
    | .unchanged note => return (s, .same before, note.toList)
    | .produced after entry => return (s.replace after, .fresh after, [entry])
  | .throughPicture =>
    let after := Raster.adoptPicture (← before.toPicture "raster_to_image")
    return (s.replace after, .fresh after, [])
  | .relayout layout =>
    let after ← Raster.ofPicture layout (← before.toPicture "raster_to_image")
    return (s.replace after, .fresh after, [])
  | .retag layout =>
    let after ← Raster.ofBlock layout before.toBlock
    return (s.replace after, .fresh after, [])
  | .keep name =>
    let after := s.keep name
    return (after, .kept after.keptNames, [])
  | .load name =>
    let tracked ← s.lookup name
    return ({ s with current := tracked }, .loaded tracked.raster, [])
  | .compare name =>
    let tracked ← s.lookup name
    return (s, .compared (before.sameNumbers tracked.raster)
      (s.current.serial == tracked.serial), [])
  | .configure settings => return ({ s with settings := settings }, .configured settings, [])

/-- A step that cannot be taken leaves the session as it is. -/
def step (s : Session) (step : Result Step) : Session × Result (Reply × List Journal.Entry) :=
  match step.bind s.next? with
  | .ok (after, reply, entries) => (after, .ok (reply, entries))
  | .error e => (s, .error e)

/-- The answers to a list of steps. -/
def run (s : Session) : List (Result Step) → List (Result (Reply × List Journal.Entry))
  | [] => []
  | first :: rest =>
    let (after, answer) := s.step first
    answer :: after.run rest

end Session

end RasterEdit
