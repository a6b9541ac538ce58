import RasterEdit.Binary.Arithmetic

/-!
# Sine and cosine

Both are computed in fixed point from the exact argument and rounded once at the end. The argument
is reduced by as many bits of π as its exponent asks for, so no magnitude loses accuracy; below
`2 ^ -27` the sine is its argument and the cosine one, as rounding to nearest gives.
-/

set_option autoImplicit false

namespace RasterEdit

namespace FixedPoint

/-- `scale / x` less `scale / (3 x³)` plus … : the arctangent of `1 / x`, scaled. The terms fall by
`x²`, so `fuel` need not exceed the number of bits of `scale`. -/
def arctanSeries (square : Nat) : (fuel : Nat) → (term odd : Nat) → (positive : Bool) → Int → Int
  | 0, _, _, _, total => total
  | fuel + 1, term, odd, positive, total =>
    if term = 0 then total
    else
      let part : Int := ((term / odd : Nat) : Int)
      arctanSeries square fuel (term / square) (odd + 2) (!positive)
        (if positive then total + part else total - part)

def arctanReciprocal (x bits : Nat) : Int :=
  arctanSeries (x * x) (bits + 1) ((1 <<< bits) / x) 1 true 0

/-- `π · 2 ^ bits`, to within a few units: `16 arctan (1/5) - 4 arctan (1/239)`, with guard bits. -/
def computePi (bits : Nat) : Nat :=
  let guard := 32
  ((16 * arctanReciprocal 5 (bits + guard) - 4 * arctanReciprocal 239 (bits + guard))
    >>> guard).toNat

/-- Bits kept after the point by the sine and cosine series. -/
def precision : Nat := 192

/-- Bits of π that serve every argument below `2 ^ 32`. -/
def piBits : Nat := precision + 96

def storedPi : Nat := computePi piBits

def pi (bits : Nat) : Nat :=
  if bits ≤ piBits then storedPi >>> (piBits - bits) else computePi bits

/-- Adds up `term - term r² / (k (k+1)) + …`, the tail shared by sine (`k = 2`) and cosine
(`k = 1`). -/
def alternating (square : Nat) : (fuel : Nat) → (term k : Nat) → (positive : Bool) → Int → Int
  | 0, _, _, _, total => total
  | fuel + 1, term, k, positive, total =>
    if term = 0 then total
    else
      alternating square fuel ((term * square) >>> precision / (k * (k + 1))) (k + 2) (!positive)
        (if positive then total + term else total - term)

/-- Sine and cosine of `r · 2 ^ -precision`, for `r` below a quarter turn. -/
def sinCos (r : Nat) : Int × Int :=
  let square := (r * r) >>> precision
  (alternating square 80 r 2 true 0, alternating square 80 (1 <<< precision) 1 true 0)

/-- Splits `m · 2 ^ q` into quarter turns and a rest in fixed point. -/
def quarterTurns (m : Nat) (q : Int) : Nat × Nat :=
  let magnitude := ((m.log2 : Int) + 1 + q).toNat
  let bits := precision + magnitude + 64
  let shift := q + bits
  let scaled := if 0 ≤ shift then m <<< shift.toNat else m >>> (-shift).toNat
  let quarter := pi bits / 2
  (scaled / quarter, (scaled % quarter) >>> (bits - precision))

end FixedPoint

namespace Binary

variable {f : Format}

def ofFixedPoint (f : Format) (n : Int) : Binary f :=
  round f (n < 0) n.natAbs 1 (-(FixedPoint.precision : Int))

/-- Sine and cosine of a finite argument; NaN for the others. -/
def sinCos (x : Binary f) : Binary f × Binary f :=
  match x.parts? with
  | none => (.nan, .nan)
  | some (m, q) =>
    if m = 0 ∨ (m.natAbs.log2 : Int) + 1 + q ≤ -27 then (x, ofInt f 1)
    else
      let (quarters, rest) := FixedPoint.quarterTurns m.natAbs q
      let (s, c) := FixedPoint.sinCos rest
      let (sine, cosine) : Int × Int :=
        match quarters % 4 with
        | 0 => (s, c)
        | 1 => (c, -s)
        | 2 => (-s, -c)
        | _ => (-c, s)
      (ofFixedPoint f (if m < 0 then -sine else sine), ofFixedPoint f cosine)

def sin (x : Binary f) : Binary f := x.sinCos.1

def cos (x : Binary f) : Binary f := x.sinCos.2

def pi (f : Format) : Binary f := round f false FixedPoint.storedPi 1 (-(FixedPoint.piBits : Int))

/-- Degrees to radians by the rounded factor π / 180. -/
def radians (x : Binary f) : Binary f := x * (pi f / ofInt f 180)

end Binary

end RasterEdit
