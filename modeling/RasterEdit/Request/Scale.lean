import RasterEdit.Geometry.Region
import RasterEdit.Geometry.Reduction
import RasterEdit.Geometry.Rounding

/-!
# Scale requests

A wanted size: one side with the other following, both sides, a box to fit into, or a fraction of
the full size. Every derived side is rounded once.
-/

set_option autoImplicit false

namespace RasterEdit

inductive ScaleMode where
  | fitWidth | fitHeight | fill | fitInside | percent
deriving DecidableEq, Repr

namespace ScaleMode

def all : List ScaleMode := [fitWidth, fitHeight, fill, fitInside, percent]

def value : ScaleMode → String
  | fitWidth => "aspect_fit_width"
  | fitHeight => "aspect_fit_height"
  | fill => "non_aspect_fill"
  | fitInside => "aspect_fit_inside"
  | percent => "percent"

def name : ScaleMode → String
  | fitWidth => "ASPECT_FIT_WIDTH"
  | fitHeight => "ASPECT_FIT_HEIGHT"
  | fill => "NON_ASPECT_FILL"
  | fitInside => "ASPECT_FIT_INSIDE"
  | percent => "PERCENT"

end ScaleMode

/-- A scale request. The fields are of either number kind, since a request may be put together
without checking; `ofFields` gives positive integers for the sides and a finite positive
binary64 number for the fraction. -/
structure ScaleRequest where
  mode : ScaleMode
  width : Option Number
  height : Option Number
  percent : Option Number

namespace ScaleRequest

/-- The fields a mode needs, with their values. -/
def needed (r : ScaleRequest) : List (String × Option Number) :=
  match r.mode with
  | .fitWidth => [("width", r.width)]
  | .fitHeight => [("height", r.height)]
  | .fill | .fitInside => [("width", r.width), ("height", r.height)]
  | .percent => [("percent", r.percent)]

/-- What is wrong with a request whose fields are valid one by one. -/
def fault? (r : ScaleRequest) : Option String :=
  let missing := (r.needed.filter (·.2.isNone)).map (·.1)
  if missing ≠ [] then
    some (r.mode.name ++ " scale requires " ++ ", ".intercalate missing)
  else
    match r.percent with
    | some (.real x) =>
      if x.isFinite then none else some ("percent must be finite, got " ++ x.text)
    | _ => none

def ofFields (fields : Fields) : Result ScaleRequest :=
  let side (name : String) : Checked (Option Number) :=
    Checked.map (·.map Number.whole)
      (Field.withDefault fields name none (Field.optional (Field.integerAbove 0)))
  Checked.toResult "ScaleSpec" <| Checked.andThen
    (ScaleRequest.mk
      <$> Field.required fields "mode" (Field.choice ScaleMode.all ScaleMode.value)
      <*> side "width" <*> side "height"
      <*> Checked.map (·.map Number.real)
        (Field.withDefault fields "percent" none (Field.optional (Field.realAbove 0))))
    fault?

def require (r : ScaleRequest) (field : String) : Option Number → Result Number
  | some x => .ok x
  | none => .error (.missingTarget r.mode.name field)

def quotient (x : Number) (side : Int) : Result Real64 :=
  match x.integer? with
  | some n => realOfFraction n side
  | none => do return (← x.toReal) / (← realOfInt side)

/-- The smaller of two numbers; the first unless the second is below it. -/
def smaller (a b : Real64) : Real64 := if Binary.lt b a then b else a

def scaledSide (side : Int) (factor : Real64) : Result Int := do
  roundHalfAway ((← realOfInt side) * factor)

/-- The size before it is checked to be positive. -/
def uncheckedTarget (r : ScaleRequest) (source : Int × Int) (reduction : Reduction) :
    Result (Int × Int) := do
  match r.mode with
  | .fitWidth =>
    let width ← (← r.require "width" r.width).truncate
    return (width, ← roundHalfAway (← realOfFraction (source.2 * width) source.1))
  | .fitHeight =>
    let height ← (← r.require "height" r.height).truncate
    return (← roundHalfAway (← realOfFraction (source.1 * height) source.2), height)
  | .fill =>
    let width ← (← r.require "width" r.width).truncate
    let height ← (← r.require "height" r.height).truncate
    return (width, height)
  | .fitInside =>
    let across ← quotient (← r.require "width" r.width) source.1
    let down ← quotient (← r.require "height" r.height) source.2
    let factor := smaller across down
    return (← scaledSide source.1 factor, ← scaledSide source.2 factor)
  | .percent =>
    let wanted ← r.require "percent" r.percent
    let scale ← reduction.scale
    let factor := (← wanted.toReal) / scale
    return (← scaledSide source.1 factor, ← scaledSide source.2 factor)

/-- The size that a raster of the given size is scaled to. -/
def target (r : ScaleRequest) (source : Int × Int) (reduction : Reduction) :
    Result (Int × Int) := do
  if r.mode ≠ .fill ∧ (source.1 = 0 ∨ source.2 = 0) then
    throw (.geometry (.aspectOfEmpty source.1 source.2) "scale" source)
  let target ← r.uncheckedTarget source reduction
  if target.1 ≤ 0 ∨ target.2 ≤ 0 then
    throw (.geometry (.nonPositiveTarget source.1 source.2) "scale" target)
  return target

def outputSize (r : ScaleRequest) (source : Int × Int) (reduction : Reduction) :
    Result Size :=
  (r.target source reduction).map fun (width, height) => ⟨width.toNat, height.toNat⟩

/-- Whether scaling a raster of the given size changes nothing. -/
def keepsSize (r : ScaleRequest) (source : Int × Int) (reduction : Reduction) : Result Bool :=
  (r.target source reduction).map (· == source)

end ScaleRequest

end RasterEdit
