import RasterEdit.Number
import RasterEdit.Field

/-!
# Reductions

A raster may come already halved a number of times. Requests refer to the full size, so the number
of halvings is needed to apply them to the raster at hand.
-/

set_option autoImplicit false

namespace RasterEdit

/-- How many times the sides of a raster have been halved. -/
structure Reduction where
  halvings : Nat
deriving DecidableEq, Repr

namespace Reduction

def none : Reduction := ⟨0⟩

def ofFields (fields : Fields) : Result Reduction :=
  Checked.toResult "ReductionFactor"
    ((Field.withDefault fields "factor" 0 (Field.integerAtLeast 0)).map fun n => ⟨n.toNat⟩)

/-- Length on the reduced raster for one on the full size. From 1024 halvings on the divisor is no
binary64 number. -/
def scale (r : Reduction) : Result Real64 :=
  if r.halvings ≤ Format.binary64.maxExponent then
    .ok (Real64.ofFraction 1 (1 <<< r.halvings : Nat))
  else .error (.conversion .integerTooLarge)

/-- Whether a number is at most a binary64 number; false if either is NaN. -/
def atMost (x : Number) (y : Real64) : Bool :=
  match x.integer? with
  | some n =>
    match Number.compareInt? n (.real y) with
    | some o => o != .gt
    | Option.none => false
  | Option.none =>
    match x with
    | .real v => Binary.le v y
    | _ => false

/-- Whether a count is below a maximum, if there is one. -/
def belowMaximum (count : Nat) : Option Number → Bool
  | Option.none => true
  | some maximum => Number.intLt count maximum

/-- Counts halvings while the next one still leaves at least the wanted scale. -/
def countHalvings (scale : Number) (maximum : Option Number) :
    (fuel : Nat) → (next : Real64) → (count : Nat) → Nat
  | 0, _, count => count
  | fuel + 1, next, count =>
    if atMost scale next && belowMaximum count maximum then
      countHalvings scale maximum fuel (next / Real64.ofInt 2) (count + 1)
    else count

/-- Halvings after which every binary64 number has become zero. -/
def halvingsToZero : Nat := Format.binary64.maxExponent + Format.binary64.precision

/-- The greatest reduction that keeps at least the wanted scale, up to a maximum. -/
def deepest (scale : Number) (maximum : Option Number) : Result Reduction := do
  if scale.isNotPositive then throw (.scaleNotPositive scale.toDatum)
  match maximum with
  | some m => if m.isNegative then throw (.negativeMaximum m.toDatum)
  | Option.none => pure ()
  return ⟨countHalvings scale maximum halvingsToZero Real64.half 0⟩

end Reduction

end RasterEdit
