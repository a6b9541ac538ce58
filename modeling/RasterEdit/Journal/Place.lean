import RasterEdit.Binary.Notation
import RasterEdit.Datum

/-!
# Places in message templates

How one argument is laid out at its place: as text or as a number in one of several notations,
filled up to a width. An argument that the place does not admit has no layout.
-/

set_option autoImplicit false

namespace RasterEdit.Journal

/-- The layout that a place asks for. `full` writes the mark of a base, the point of a number
without places, and trailing zeros. -/
structure Place where
  leftAligned : Bool
  zeroPadded : Bool
  signed : Bool
  spaced : Bool
  full : Bool
  width : Nat
  precision : Option Nat

namespace Place

def blanks (n : Nat) : String := String.ofList (List.replicate n ' ')

def text (p : Place) (s : String) : String :=
  if p.leftAligned then s ++ blanks (p.width - s.length) else blanks (p.width - s.length) ++ s

def cut (p : Place) (s : String) : String :=
  match p.precision with
  | some n => p.text (String.ofList (s.toList.take n))
  | none => p.text s

def signOf (p : Place) (negative : Bool) : String :=
  if negative then "-" else if p.signed then "+" else if p.spaced then " " else ""

/-- A number after its sign and the mark of its base; zeros go between mark and number. -/
def number (p : Place) (negative : Bool) (mark body : String) : String :=
  let front := p.signOf negative ++ mark
  if p.zeroPadded && !p.leftAligned then
    front ++ zeros (p.width - (front.length + body.length)) ++ body
  else p.text (front ++ body)

/-- The bases of integers, with the mark that a full layout shows. -/
inductive Base where
  | octal | decimal | hexadecimal
deriving DecidableEq, Repr

def Base.value : Base → Nat
  | octal => 8
  | decimal => 10
  | hexadecimal => 16

def Base.mark : Base → String
  | octal => "0o"
  | decimal => ""
  | hexadecimal => "0x"

/-- An integer; the precision is the least number of digits. -/
def integer (p : Place) (base : Base) (n : Int) : String × String :=
  let digits := Nat.toDigits base.value n.natAbs
  let least := p.precision.getD 1 - digits.length
  (if p.full then base.mark else "", zeros least ++ String.ofList digits)

inductive Notation where
  | positional | exponential | general
deriving DecidableEq, Repr

/-- The magnitude of a number, six places or digits unless a precision is given. -/
def magnitude (p : Place) (form : Notation) : Real64 → String
  | .nan => "nan"
  | .signed _ rank _ =>
    let precision := p.precision.getD 6
    if rank = Format.binary64.top then "inf"
    else
      match form with
      | .positional => Binary.positionalText .binary64 rank precision p.full
      | .exponential => Binary.exponentialText .binary64 rank precision p.full
      | .general => Binary.generalText .binary64 rank precision p.full

inductive Conversion where
  | plain | shown | ascii
  | character
  | whole
  | based (base : Base) (upper : Bool)
  | real (form : Notation) (upper : Bool)
deriving DecidableEq, Repr

def Conversion.ofLetter? : Char → Option Conversion
  | 's' => some plain
  | 'r' => some shown
  | 'a' => some ascii
  | 'c' => some character
  | 'd' | 'i' | 'u' => some whole
  | 'o' => some (based .octal false)
  | 'x' => some (based .hexadecimal false)
  | 'X' => some (based .hexadecimal true)
  | 'f' => some (real .positional false)
  | 'F' => some (real .positional true)
  | 'e' => some (real .exponential false)
  | 'E' => some (real .exponential true)
  | 'g' => some (real .general false)
  | 'G' => some (real .general true)
  | _ => none

def integer? : Datum → Option Int
  | .whole n => some n
  | .truth b => some (if b then 1 else 0)
  | _ => none

/-- An integer, or a finite number without its fraction. -/
def truncated? : Datum → Option Int
  | .real x => x.truncate?
  | d => integer? d

/-- A number as binary64; integers out of its range have none. -/
def real? : Datum → Option Real64
  | .real x => some x
  | d =>
    (integer? d).bind fun n =>
      let x := Real64.ofInt n
      if x.isFinite then some x else none

/-- A text of one character, or a code point. -/
def character? (d : Datum) : Option Char :=
  match d with
  | .text s =>
    match s.toList with
    | [c] => some c
    | _ => none
  | _ =>
    (integer? d).bind fun n =>
      if 0 ≤ n ∧ n.toNat.isValidChar then some (Char.ofNat n.toNat) else none

def cased (upper : Bool) (s : String) : String := if upper then s.toUpper else s

/-- The argument at the place, if the conversion admits it. -/
def render (p : Place) (conversion : Conversion) (d : Datum) : Option String :=
  match conversion with
  | .plain => some (p.cut d.plain)
  | .shown => some (p.cut d.shown)
  | .ascii => some (p.cut (Text.ascii d.shown))
  | .character => (character? d).map fun c => p.text c.toString
  | .whole =>
    (truncated? d).map fun n =>
      let (mark, body) := p.integer .decimal n
      p.number (n < 0) mark body
  | .based base upper =>
    (integer? d).map fun n =>
      let (mark, body) := p.integer base n
      p.number (n < 0) (cased upper mark) (cased upper body)
  | .real form upper =>
    (real? d).map fun x =>
      p.number (Binary.isNegative x) "" (cased upper (p.magnitude form x))

end Place

end RasterEdit.Journal
