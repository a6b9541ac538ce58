/-!
# Binary floating-point values

The interchange formats of 16, 32 and 64 bits as values of one inductive family. A value that is
not a NaN is a sign and a *rank*: the number of non-negative values of the format that lie below
its magnitude. Ranks make every representation canonical, order magnitudes as numbers, and give
infinity the rank just above the largest finite value.

All arithmetic of this library is "exact, then rounded": an operation computes a fraction and a
power of two exactly in integers and calls `Binary.round`, which rounds to nearest with ties to the
even significand.
-/

set_option autoImplicit false

namespace RasterEdit

/-- A binary format: `precision` significant bits, exponents up to `maxExponent`. -/
structure Format where
  precision : Nat
  maxExponent : Nat
deriving DecidableEq, Repr

namespace Format

def binary16 : Format := ⟨11, 15⟩

def binary32 : Format := ⟨24, 127⟩

def binary64 : Format := ⟨53, 1023⟩

/-- Exponent of the smallest spacing between two values. -/
def leastQuantum (f : Format) : Int := 2 - f.maxExponent - f.precision

/-- The smallest significand of full precision. -/
def hidden (f : Format) : Nat := 1 <<< (f.precision - 1)

def top (f : Format) : Nat := (2 * f.maxExponent + 1) * f.hidden

/-- Width of the encoded form in bits. -/
def width (f : Format) : Nat := f.precision + (2 * f.maxExponent + 2).log2

/-- Significand of the magnitude with the given rank. -/
def significand (f : Format) (rank : Nat) : Nat :=
  if rank < f.hidden then rank else f.hidden + rank % f.hidden

/-- Exponent of the spacing at the magnitude with the given rank. -/
def quantum (f : Format) (rank : Nat) : Int :=
  f.leastQuantum + ((rank / f.hidden - 1 : Nat) : Int)

end Format

/-- A floating-point value: NaN, or a sign and the rank of the magnitude. -/
inductive Binary (f : Format) where
  | nan
  | signed (negative : Bool) (rank : Nat) (rank_le_top : rank ≤ f.top)
deriving DecidableEq

/-- Double precision, the format of every request field. -/
abbrev Real64 := Binary Format.binary64

/-- The integer nearest to `n / d`, the even one of two equally near. -/
def nearestEven (n d : Nat) : Nat :=
  let quotient := n / d
  let remainder := n % d
  if 2 * remainder < d then quotient
  else if d < 2 * remainder then quotient + 1
  else quotient + quotient % 2

/-- The greatest `k` with `2 ^ k ≤ n / d`, for positive `n` and `d`. -/
def floorLog2 (n d : Nat) : Int :=
  let k : Int := (n.log2 : Int) - (d.log2 : Int)
  let fits := if 0 ≤ k then d <<< k.toNat ≤ n else d ≤ n <<< (-k).toNat
  if fits then k else k - 1

namespace Binary

variable {f : Format}

/-- Rank of the value nearest to `n / d · 2 ^ q`, ties to the even significand. A carry out of the
significand moves to the next exponent by itself, since ranks are consecutive. -/
def nearestRank (f : Format) (n d : Nat) (q : Int) : Nat :=
  if n = 0 then 0
  else
    let target := max (floorLog2 n d + q + 1 - f.precision) f.leastQuantum
    let shift := target - q
    let significand :=
      if 0 ≤ shift then nearestEven n (d <<< shift.toNat)
      else nearestEven (n <<< (-shift).toNat) d
    min ((target - f.leastQuantum).toNat * f.hidden + significand) f.top

/-- The value nearest to `± n / d · 2 ^ q`; magnitudes past the last finite value become
infinite. -/
def round (f : Format) (negative : Bool) (n d : Nat) (q : Int) : Binary f :=
  .signed negative (nearestRank f n d q) (by
    unfold nearestRank
    split
    · exact Nat.zero_le _
    · exact Nat.min_le_right _ _)

def zero (negative : Bool) : Binary f := .signed negative 0 (Nat.zero_le _)

def infinity (negative : Bool) : Binary f := .signed negative f.top (Nat.le_refl _)

def ofInt (f : Format) (n : Int) : Binary f := round f (n < 0) n.natAbs 1 0

/-- The value nearest to the quotient of two integers, the divisor not zero. -/
def ofFraction (f : Format) (n d : Int) : Binary f :=
  round f ((n < 0) != (d < 0)) n.natAbs d.natAbs 0

instance (n : Nat) : OfNat (Binary f) n := ⟨ofInt f n⟩

def isNaN : Binary f → Bool
  | .nan => true
  | .signed .. => false

def isFinite : Binary f → Bool
  | .nan => false
  | .signed _ rank _ => rank < f.top

/-- A finite value as a signed significand and the exponent of its spacing. -/
def parts? : Binary f → Option (Int × Int)
  | .nan => none
  | .signed negative rank _ =>
    if rank < f.top then
      let m : Int := f.significand rank
      some (if negative then -m else m, f.quantum rank)
    else none

/-- The encoded form: sign bit, exponent field and fraction field, which together are the rank. -/
def toBits : Binary f → Nat
  | .nan => f.top + f.hidden / 2
  | .signed negative rank _ =>
    if negative then (1 <<< (f.width - 1)) + rank else rank

/-- Reads an encoded form; every NaN payload reads as the one NaN. -/
def ofBits (f : Format) (bits : Nat) : Binary f :=
  let rank := bits % (1 <<< (f.width - 1))
  if h : rank ≤ f.top then .signed (bits >>> (f.width - 1) % 2 == 1) rank h else .nan

end Binary

end RasterEdit
