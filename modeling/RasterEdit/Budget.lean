import RasterEdit.Settings
import RasterEdit.Geometry.Region

/-!
# Output budget

Refuses outputs with more pixels than the settings allow, before they are made, and reports work
that ran out of memory as a refused allocation.
-/

set_option autoImplicit false

namespace RasterEdit

namespace Budget

/-- The limit in force; zero or less means none. A limit given by the caller goes before the
settings. -/
def limit (settings : Settings) : Option Int → Result Int
  | some n => .ok n
  | none =>
    if settings.requireOutputLimit then settings.outputLimit.map Int.ofNat
    else .ok settings.maxOutputPixels

def check (settings : Settings) (operation : String) (size : Int × Int)
    (given : Option Int := none) : Result Unit := do
  let bound ← limit settings given
  let pixels := size.1 * size.2
  if 0 < bound ∧ bound < pixels then
    throw (.allocation (.overLimit pixels) operation size bound)

/-- Checks the output, does the work and turns exhausted memory into a refused allocation. -/
def guarded {α : Type} (settings : Settings) (operation : String) (size : Int × Int)
    (work : Unit → Except Interruption α) : Result α := do
  check settings operation size
  match work () with
  | .ok a => return a
  | .error .outOfMemory => throw (.allocation .outOfMemory operation size none)
  | .error other => throw (.interrupted other)

end Budget

end RasterEdit
