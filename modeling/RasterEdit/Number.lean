import RasterEdit.Failure

/-!
# Numbers of either kind

A parameter that has not been checked against a declared kind: a truth value, which counts as 0 or
1, an exact integer of any size, or a binary64 number. Comparisons between the kinds are exact;
arithmetic with binary64 converts first and fails if the integer is too large.
-/

set_option autoImplicit false

namespace RasterEdit

inductive Number where
  | truth (b : Bool)
  | whole (n : Int)
  | real (x : Real64)

namespace Number

def toDatum : Number → Datum
  | truth b => .truth b
  | whole n => .whole n
  | real x => .real x

end Number

/-- The nearest binary64 number, if it is finite. -/
def realOfInt (n : Int) : Result Real64 :=
  let x := Real64.ofInt n
  if x.isFinite then .ok x else .error (.conversion .integerTooLarge)

/-- The quotient of two integers, rounded once, if it is finite; the divisor is not zero. -/
def realOfFraction (n d : Int) : Result Real64 :=
  let x := Real64.ofFraction n d
  if x.isFinite then .ok x else .error (.conversion .quotientTooLarge)

/-- An integer as a signed word of 32 bits. It has to fit a word of 64 bits first. -/
def shortWord (n : Int) : Result Int :=
  if (1 <<< 63 : Nat) ≤ n ∨ n < -(1 <<< 63 : Nat) then .error (.conversion .beyondLong)
  else if (1 <<< 31 : Nat) ≤ n then .error (.conversion .aboveShort)
  else if n < -(1 <<< 31 : Nat) then .error (.conversion .belowShort)
  else .ok n

/-- An integral reading of a number, which infinities and NaN do not have. -/
def integral (reading : Real64 → Option Int) (x : Real64) : Result Int :=
  match reading x with
  | some n => .ok n
  | none => .error (.conversion (if x.isNaN then .nanToInteger else .infinityToInteger))

namespace Number

def integerOf (b : Bool) : Int := if b then 1 else 0

def toReal : Number → Result Real64
  | truth b => realOfInt (integerOf b)
  | whole n => realOfInt n
  | real x => .ok x

def truncate : Number → Result Int
  | truth b => .ok (integerOf b)
  | whole n => .ok n
  | real x => integral Binary.truncate? x

/-- The number as an integer, if its kind is one. -/
def integer? : Number → Option Int
  | truth b => some (integerOf b)
  | whole n => some n
  | real _ => none

/-- Exact comparison of an integer with a number; `none` for NaN. -/
def compareInt? (n : Int) : Number → Option Ordering
  | truth b => some (compare n (integerOf b))
  | whole k => some (compare n k)
  | real x =>
    match x.floor? with
    | some k =>
      if n ≤ k then
        some (if n = k ∧ x.toInt? = some k then .eq else .lt)
      else some .gt
    | none =>
      match x with
      | .nan => none
      | .signed negative _ _ => some (if negative then .gt else .lt)

def intLt (n : Int) (x : Number) : Bool := compareInt? n x == some .lt

def isNegative (x : Number) : Bool := compareInt? 0 x == some .gt

def isNotPositive (x : Number) : Bool := compareInt? 0 x == some .gt || compareInt? 0 x == some .eq

end Number

end RasterEdit
