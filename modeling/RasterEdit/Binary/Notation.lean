import RasterEdit.Binary.Decimal

/-!
# Decimal notations of a chosen precision

The magnitude of a finite value in positional, exponential or general notation, rounded once from
its exact value with ties to the even digit. General notation is positional for moderate exponents
and exponential for the others, without trailing zeros.
-/

set_option autoImplicit false

namespace RasterEdit

/-- Digits before and after a point, and the exponent in exponential notation. -/
structure Numeral where
  whole : List Char
  fraction : List Char
  exponent : Option Int

namespace Numeral

def trimmed (n : Numeral) : Numeral :=
  { n with fraction := (n.fraction.reverse.dropWhile (· == '0')).reverse }

/-- The numeral as text; `keepsPoint` shows the point even if no digit follows. -/
def text (keepsPoint : Bool) (n : Numeral) : String :=
  let point := if n.fraction = [] ∧ !keepsPoint then [] else '.' :: n.fraction
  let power :=
    match n.exponent with
    | none => ""
    | some e =>
      let magnitude := toString e.natAbs
      "e" ++ (if e < 0 then "-" else "+") ++ zeros (2 - magnitude.length) ++ magnitude
  String.ofList (n.whole ++ point) ++ power

end Numeral

namespace Decimal

/-- The exponent of the leading one of `count` digits. -/
def leading (d : Decimal) (count : Nat) : Int := d.exponent + count - 1

def padded (d : Decimal) (count : Nat) : List Char :=
  let written := (toString d.digits).toList
  List.replicate (count - written.length) '0' ++ written

def exponential (d : Decimal) (count : Nat) : Numeral :=
  let written := d.padded count
  ⟨written.take 1, written.drop 1, some (d.leading count)⟩

/-- The point where it belongs, for a leading digit at or before the last of the `count` digits. -/
def positional (d : Decimal) (count : Nat) : Numeral :=
  let written := d.padded count
  let leading := d.leading count
  if leading < 0 then ⟨['0'], List.replicate (-leading - 1).toNat '0' ++ written, none⟩
  else ⟨written.take (leading.toNat + 1), written.drop (leading.toNat + 1), none⟩

end Decimal

namespace Binary

/-- The decimal of `count` digits nearest to the magnitude with the given rank, the even one of two
equally near. -/
def roundedTo (f : Format) (rank count : Nat) : Decimal :=
  if rank = 0 then ⟨0, 1 - (count : Int)⟩
  else
    let m := f.significand rank
    let q := f.quantum rank
    let e := floorLog10 m q - (count : Int) + 1
    let (n, d) := decimalFraction m q e
    let digits := nearestEven n d
    if digits < Nat.pow 10 count then ⟨digits, e⟩ else ⟨digits / 10, e + 1⟩

/-- Digits of a natural number with a point before the last `places`. -/
def pointed (places n : Nat) : String :=
  let written := toString n
  let padded := (zeros (places + 1 - written.length) ++ written).toList
  let whole := padded.length - places
  String.ofList (padded.take whole)
    ++ (if places = 0 then "" else "." ++ String.ofList (padded.drop whole))

def exponentialText (f : Format) (rank places : Nat) (keepsPoint : Bool) : String :=
  ((roundedTo f rank (places + 1)).exponential (places + 1)).text keepsPoint

def positionalText (f : Format) (rank places : Nat) (keepsPoint : Bool) : String :=
  let (n, d) := decimalFraction (f.significand rank) (f.quantum rank) (-(places : Int))
  pointed places (nearestEven n d) ++ (if places = 0 ∧ keepsPoint then "." else "")

/-- General notation with at most `precision` digits; `full` keeps trailing zeros. -/
def generalText (f : Format) (rank precision : Nat) (full : Bool) : String :=
  let count := max 1 precision
  let d := roundedTo f rank count
  let leading := d.leading count
  let numeral :=
    if leading < -4 ∨ (count : Int) ≤ leading then d.exponential count else d.positional count
  (if full then numeral else numeral.trimmed).text full

variable {f : Format}

def fixed (places : Nat) (x : Binary f) : String :=
  match x with
  | .nan => "nan"
  | .signed negative rank _ =>
    let magnitude := if rank = f.top then "inf" else positionalText f rank places false
    if negative then "-" ++ magnitude else magnitude

end Binary

end RasterEdit
