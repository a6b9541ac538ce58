import RasterEdit.Binary.Arithmetic

/-!
# Decimal forms of binary values

Reading a decimal rounds its exact value once. Writing gives the fewest digits that read back as the
same value. Both are computed in exact integer arithmetic.
-/

set_option autoImplicit false

namespace RasterEdit

structure Decimal where
  digits : Nat
  exponent : Int
deriving DecidableEq, Repr

/-- How a value is laid out in text: exponents of the leading digit that are written positionally,
and the least number of digits of a written exponent. -/
structure DecimalStyle where
  leastPositional : Int
  greatestPositional : Int
  exponentDigits : Nat

/-- Request fields are shown positionally from 0.0001 up to below 10 ^ 16. -/
def DecimalStyle.field : DecimalStyle := ⟨-4, 15, 2⟩

def zeros (n : Nat) : String := String.ofList (List.replicate n '0')

namespace Decimal

/-- The positional or exponential text of a positive decimal; at least one digit follows a
positional point. -/
def text (style : DecimalStyle) (d : Decimal) : String :=
  let written := (toString d.digits).toList
  let count := written.length
  let leading : Int := d.exponent + count - 1
  if style.leastPositional ≤ leading ∧ leading ≤ style.greatestPositional then
    if leading < 0 then
      "0." ++ zeros (-leading - 1).toNat ++ String.ofList written
    else
      let whole := leading.toNat + 1
      if count ≤ whole then
        String.ofList written ++ zeros (whole - count) ++ ".0"
      else
        String.ofList (written.take whole) ++ "." ++ String.ofList (written.drop whole)
  else
    let fraction := if count = 1 then "" else "." ++ String.ofList (written.drop 1)
    let magnitude := toString leading.natAbs
    String.ofList (written.take 1) ++ fraction ++ "e" ++ (if leading < 0 then "-" else "+")
      ++ zeros (style.exponentDigits - magnitude.length) ++ magnitude

end Decimal

namespace Binary

variable {f : Format}

/-- The value nearest to `± digits · 10 ^ exponent`. Exponents far outside the range of every
format are settled without forming the power. -/
def ofDecimal (f : Format) (negative : Bool) (digits : Nat) (exponent : Int) : Binary f :=
  if digits = 0 then zero negative
  else if 400 < exponent then infinity negative
  else if exponent < -400 - (digits.log2 : Int) then zero negative
  else if 0 ≤ exponent then round f negative (digits * Nat.pow 10 exponent.toNat) 1 0
  else round f negative digits (Nat.pow 10 (-exponent).toNat) 0

/-- `m · 2 ^ q / 10 ^ e` as a fraction of naturals. -/
def decimalFraction (m : Nat) (q e : Int) : Nat × Nat :=
  ((m <<< q.toNat) * Nat.pow 10 (-e).toNat, Nat.pow 10 e.toNat <<< (-q).toNat)

/-- The greatest `k` with `10 ^ k ≤ m · 2 ^ q`, for positive `m`. -/
def floorLog10 (m : Nat) (q : Int) : Int :=
  let estimate := ((m.log2 : Int) + q) * 30103 / 100000
  let reaches (k : Int) : Bool :=
    let (n, d) := decimalFraction m q k
    d ≤ n
  if !reaches estimate then estimate - 1
  else if reaches (estimate + 1) then estimate + 1
  else estimate

/-- The nearer of the two `count`-digit neighbours of a magnitude among those that read back as
it, the even one of two equally near. -/
def decimalWith? (f : Format) (rank count : Nat) : Option Decimal :=
  let m := f.significand rank
  let q := f.quantum rank
  let e := floorLog10 m q - (count : Int) + 1
  let (n, d) := decimalFraction m q e
  let lower := n / d
  let readsBack (digits : Nat) : Bool := ofDecimal f false digits e == round f false m 1 q
  let nearest := nearestEven n d
  let farther := if nearest = lower then lower + 1 else lower
  if readsBack nearest then some ⟨nearest, e⟩
  else if readsBack farther then some ⟨farther, e⟩
  else none

/-- Drops trailing zeros; a digit string of length `fuel` has no more than that many. -/
def stripZeros : Nat → Decimal → Decimal
  | 0, d => d
  | fuel + 1, d =>
    if d.digits ≠ 0 ∧ d.digits % 10 = 0 then stripZeros fuel ⟨d.digits / 10, d.exponent + 1⟩ else d

/-- The shortest decimal that reads back as the magnitude with the given rank. -/
def shortest (f : Format) (rank : Nat) : Decimal :=
  let most := f.precision * 30103 / 100000 + 2
  let counts := (List.range most).map (· + 1)
  match counts.findSome? (decimalWith? f rank) with
  | some d => stripZeros most d
  | none => ⟨0, 0⟩

/-- The value as text with the fewest digits that read back. -/
def text (x : Binary f) : String :=
  match x with
  | .nan => "nan"
  | .signed negative rank _ =>
    let sign := if negative then "-" else ""
    if rank = f.top then sign ++ "inf"
    else if rank = 0 then sign ++ "0.0"
    else sign ++ (shortest f rank).text DecimalStyle.field

end Binary

end RasterEdit
