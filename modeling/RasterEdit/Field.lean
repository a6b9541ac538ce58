import RasterEdit.Failure
import RasterEdit.Text.Numeral

/-!
# Checked fields

Readers turn a dynamic value into an integer, number, truth value, text or choice, or say what is
wrong with it. `Checked` gathers the faults of all fields of a record in the order in which the
fields are declared.
-/

set_option autoImplicit false

namespace RasterEdit

/-- A value, or every fault found on the way to it. -/
inductive Checked (α : Type) where
  | valid (value : α)
  | faulty (errors : List FieldError)

namespace Checked

variable {α β : Type}

def map (f : α → β) : Checked α → Checked β
  | valid a => valid (f a)
  | faulty errors => faulty errors

/-- Applies a checked function to a checked value and keeps the faults of both. -/
def apply (f : Checked (α → β)) (a : Unit → Checked α) : Checked β :=
  match f, a () with
  | valid f, valid a => valid (f a)
  | valid _, faulty errors => faulty errors
  | faulty errors, valid _ => faulty errors
  | faulty errors, faulty more => faulty (errors ++ more)

instance : Applicative Checked where
  pure := valid
  map := map
  seq := apply

/-- Checks the record as a whole, once all its fields are valid. -/
def andThen (a : Checked α) (check : α → Option String) : Checked α :=
  match a with
  | faulty errors => faulty errors
  | valid a =>
    match check a with
    | none => valid a
    | some message => faulty [⟨"(root)", .inconsistent message⟩]

def toResult (model : String) : Checked α → Result α
  | valid a => .ok a
  | faulty errors => .error (.invalid model errors)

end Checked

namespace Field

abbrev Reader (α : Type) : Type := Datum → Except FieldFault α

/-- Integers, truth values as 0 and 1, numbers without a fraction, and texts of integers. -/
def integer : Reader Int
  | .whole n => .ok n
  | .truth b => .ok (if b then 1 else 0)
  | .real x =>
    if !x.isFinite then .error .finiteExpected
    else
      match x.toInt? with
      | none => .error .integerFromFraction
      | some n => if n.natAbs < 1 <<< 63 then .ok n else .error .integerTooLong
  | .text s =>
    if Text.isOverlong s.toList then .error .integerTooLong
    else
      match Text.integer? s.toList with
      | some n => .ok n
      | none => .error .integerUnreadable
  | _ => .error .integerExpected

/-- Numbers, truth values as 0 and 1, and texts of numbers. -/
def real : Reader Real64
  | .whole n =>
    let x := Real64.ofInt n
    if x.isFinite then .ok x else .error .realExpected
  | .truth b => .ok (if b then 1 else 0)
  | .real x => .ok x
  | .text s =>
    match Text.real? s with
    | some x => .ok x
    | none => .error .realUnreadable
  | _ => .error .realExpected

def trueWords : List String := ["1", "on", "t", "true", "y", "yes"]

def falseWords : List String := ["0", "off", "f", "false", "n", "no"]

/-- Truth values, the numbers 0 and 1, and words of either meaning in any case. Integers are looked
at as words of 64 bits; what does not fit one is no candidate at all. -/
def truth : Reader Bool
  | .truth b => .ok b
  | .whole n => ofInteger n
  | .real x =>
    match x.toInt? with
    | none => .error .truthExpected
    | some n => if n.natAbs < 1 <<< 63 then ofInteger n else .error .truthExpected
  | .text s =>
    let word := String.ofList (s.toList.map Char.toLower)
    if trueWords.contains word then .ok true
    else if falseWords.contains word then .ok false
    else .error .truthUnreadable
  | _ => .error .truthExpected
where
  ofInteger (n : Int) : Except FieldFault Bool :=
    if n = 0 then .ok false
    else if n = 1 then .ok true
    else if -(1 <<< 63 : Nat) ≤ n ∧ n < (1 <<< 63 : Nat) then .error .truthUnreadable
    else .error .truthExpected

def text : Reader String
  | .text s => .ok s
  | _ => .error .textExpected

/-- One of a fixed list of named choices. -/
def choice {α : Type} (all : List α) (value : α → String) : Reader α := fun d =>
  let found :=
    match d with
    | .text s => all.find? (value · == s)
    | _ => none
  match found with
  | some a => .ok a
  | none => .error (.unknownChoice (all.map value))

/-- Accepts an explicit null as the absence of a value. -/
def optional {α : Type} (reader : Reader α) : Reader (Option α)
  | .null => .ok none
  | d => (reader d).map some

def restricted {α : Type} (reader : Reader α) (check : α → Option FieldFault) : Reader α := fun d =>
  match reader d with
  | .error fault => .error fault
  | .ok a =>
    match check a with
    | none => .ok a
    | some fault => .error fault

def integerAtLeast (bound : Nat) : Reader Int :=
  restricted integer fun n => if n < bound then some (.below bound) else none

def integerAbove (bound : Nat) : Reader Int :=
  restricted integer fun n => if n ≤ bound then some (.notAbove bound) else none

/-- NaN is not at least anything. -/
def realAtLeast (bound : Nat) : Reader Real64 :=
  restricted real fun x =>
    if Binary.le (Real64.ofInt bound) x then none else some (.below bound)

/-- NaN is not above anything. -/
def realAbove (bound : Nat) : Reader Real64 :=
  restricted real fun x =>
    if Binary.lt (Real64.ofInt bound) x then none else some (.notAbove bound)

def required {α : Type} (fields : Fields) (name : String) (reader : Reader α) : Checked α :=
  match fields.get? name with
  | none => .faulty [⟨name, .missing⟩]
  | some d =>
    match reader d with
    | .ok a => .valid a
    | .error fault => .faulty [⟨name, fault⟩]

/-- A field that has a value when it is not given. -/
def withDefault {α : Type} (fields : Fields) (name : String) (default : α) (reader : Reader α) :
    Checked α :=
  match fields.get? name with
  | none => .valid default
  | some _ => required fields name reader

end Field

end RasterEdit
