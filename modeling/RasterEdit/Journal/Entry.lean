import RasterEdit.Geometry.Region

/-!
# Journal entries

What an edit leaves behind in the log. The entry of a completed edit names the edit and the sizes
before and after it; its message ends with the elapsed time, which is known only outside.
-/

set_option autoImplicit false

namespace RasterEdit

namespace Journal

inductive Level where
  | debug | info | warning | error | critical
deriving DecidableEq, Repr

namespace Level

def name : Level → String
  | debug => "DEBUG"
  | info => "INFO"
  | warning => "WARNING"
  | error => "ERROR"
  | critical => "CRITICAL"

def rank : Level → Nat
  | debug => 10
  | info => 20
  | warning => 30
  | error => 40
  | critical => 50

end Level

/-- What the entry of a completed edit carries. -/
structure Completion where
  operation : String
  inputSize : Size
  outputSize : Size
deriving DecidableEq

structure Entry where
  level : Level
  source : String
  text : String
  completion : Option Completion

def timed (text elapsed : String) : String := text ++ " in " ++ elapsed ++ " msec"

namespace Entry

/-- The message, given the elapsed time as text. -/
def message (e : Entry) (elapsed : String) : String :=
  if e.completion.isSome then timed e.text elapsed else e.text

def sourceOf (part : String) : String := "rasterops.core." ++ part

def completed (part operation : String) (inputSize outputSize : Size) (text : String) : Entry where
  level := .info
  source := sourceOf part
  text := operation ++ "(): " ++ text
  completion := some ⟨operation, inputSize, outputSize⟩

def idle (part text : String) : Entry where
  level := .debug
  source := sourceOf part
  text := part ++ "(): " ++ text
  completion := none

end Entry

end Journal

end RasterEdit
