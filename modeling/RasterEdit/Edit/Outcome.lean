import RasterEdit.Budget
import RasterEdit.Journal.Entry
import RasterEdit.Raster.Basic

/-!
# Outcomes of edits

An edit either has nothing to do, and the very raster it was given stays, or makes a new one.
-/

set_option autoImplicit false

namespace RasterEdit

inductive Outcome where
  | unchanged (note : Option Journal.Entry)
  | produced (raster : Raster) (entry : Journal.Entry)

/-- The raster that is left: the new one, or the one that was given. -/
def Outcome.raster (before : Raster) : Outcome → Raster
  | unchanged _ => before
  | produced after _ => after

def Size.shown (s : Size) : String := s!"{s.width}x{s.height}"

/-- Makes a new raster under the output budget and logs it. -/
def produce (settings : Settings) (part operation : String) (before : Raster)
    (planned : Int × Int) (text : String) (make : Unit → Result Raster) : Result Outcome := do
  Budget.check settings operation planned
  let after ← make ()
  return .produced after (.completed part operation before.size after.size text)

end RasterEdit
