import RasterEdit.Binary.Basic

/-!
# Arithmetic, comparison and integral values

Each operation is exact on the integer significands and rounds once. A NaN operand gives NaN;
comparisons with NaN are false; the two zeros are equal.
-/

set_option autoImplicit false

namespace RasterEdit.Binary

variable {f : Format}

def neg : Binary f → Binary f
  | .nan => .nan
  | .signed negative rank h => .signed (!negative) rank h

def abs : Binary f → Binary f
  | .nan => .nan
  | .signed _ rank h => .signed false rank h

/-- The exact sum, rounded; a sum of zero is negative only if both operands are. -/
def add : Binary f → Binary f → Binary f
  | .nan, _ => .nan
  | .signed .., .nan => .nan
  | .signed s a ha, .signed t b hb =>
    if a = f.top then
      if b = f.top ∧ s ≠ t then .nan else .signed s a ha
    else if b = f.top then .signed t b hb
    else
      let p := f.quantum a
      let q := f.quantum b
      let common := min p q
      let m : Int := f.significand a <<< (p - common).toNat
      let n : Int := f.significand b <<< (q - common).toNat
      let total := (if s then -m else m) + (if t then -n else n)
      if total = 0 then zero (s && t) else round f (total < 0) total.natAbs 1 common

def sub (x y : Binary f) : Binary f := add x (neg y)

def mul : Binary f → Binary f → Binary f
  | .nan, _ => .nan
  | .signed .., .nan => .nan
  | .signed s a _, .signed t b _ =>
    if a = f.top ∨ b = f.top then
      if a = 0 ∨ b = 0 then .nan else infinity (s != t)
    else round f (s != t) (f.significand a * f.significand b) 1 (f.quantum a + f.quantum b)

/-- The exact quotient, rounded; a nonzero value over zero is infinite. -/
def div : Binary f → Binary f → Binary f
  | .nan, _ => .nan
  | .signed .., .nan => .nan
  | .signed s a _, .signed t b _ =>
    if a = f.top then
      if b = f.top then .nan else infinity (s != t)
    else if b = f.top then zero (s != t)
    else if b = 0 then
      if a = 0 then .nan else infinity (s != t)
    else round f (s != t) (f.significand a) (f.significand b) (f.quantum a - f.quantum b)

instance : Neg (Binary f) := ⟨neg⟩
instance : Add (Binary f) := ⟨add⟩
instance : Sub (Binary f) := ⟨sub⟩
instance : Mul (Binary f) := ⟨mul⟩
instance : Div (Binary f) := ⟨div⟩

/-- Order key of a value that is not NaN: equal for the two zeros. -/
def key (negative : Bool) (rank : Nat) : Int := if negative then -rank else rank

/-- Three-way numeric comparison; `none` if either operand is NaN. -/
def compare? : Binary f → Binary f → Option Ordering
  | .signed s a _, .signed t b _ => some (compare (key s a) (key t b))
  | _, _ => none

def lt (x y : Binary f) : Bool := compare? x y == some .lt

def le (x y : Binary f) : Bool :=
  match compare? x y with
  | some o => o != .gt
  | none => false

/-- Numeric equality, unlike `=` false on NaN and true on zeros of opposite sign. -/
def equal (x y : Binary f) : Bool := compare? x y == some .eq

/-- Whether the sign is a minus; a zero may have one, a NaN has none. -/
def isNegative : Binary f → Bool
  | .nan => false
  | .signed negative _ _ => negative

def isZero : Binary f → Bool
  | .nan => false
  | .signed _ rank _ => rank == 0

/-- The greatest integer not above a finite value. -/
def floor? (x : Binary f) : Option Int :=
  x.parts?.map fun (m, q) => if 0 ≤ q then m <<< q.toNat else m >>> (-q).toNat

def truncate? (x : Binary f) : Option Int :=
  x.parts?.map fun (m, q) =>
    if 0 ≤ q then m <<< q.toNat else m.tdiv ((1 <<< (-q).toNat : Nat) : Int)

/-- The integer nearest to a finite value, the even one of two equally near. -/
def nearestInt? (x : Binary f) : Option Int :=
  x.parts?.map fun (m, q) =>
    if 0 ≤ q then m <<< q.toNat
    else
      let n : Int := nearestEven m.natAbs (1 <<< (-q).toNat)
      if m < 0 then -n else n

/-- A finite value whose fraction is zero, as an integer. -/
def toInt? (x : Binary f) : Option Int :=
  x.parts?.bind fun (m, q) =>
    if 0 ≤ q then some (m <<< q.toNat)
    else
      let n := m >>> (-q).toNat
      if n <<< (-q).toNat = m then some n else none

def toFormat (g : Format) : Binary f → Binary g
  | .nan => .nan
  | .signed negative rank _ =>
    if rank = f.top then infinity negative
    else round g negative (f.significand rank) 1 (f.quantum rank)

/-- Remainder of division by a positive modulus, with the sign of the modulus. The remainder of
truncated division is exact; a negative one is then brought into range by one rounded addition. -/
def wrap (x : Binary f) (modulus : Nat) : Binary f :=
  match x.parts? with
  | none => .nan
  | some (m, q) =>
    let unit : Nat := 1 <<< (-q).toNat
    let magnitude := if 0 ≤ q then (m.natAbs <<< q.toNat) % modulus else m.natAbs % (modulus * unit)
    let remainder : Binary f := round f (m < 0) magnitude 1 (min q 0)
    if magnitude = 0 then zero false
    else if m < 0 then remainder + ofInt f modulus
    else remainder

end RasterEdit.Binary

namespace RasterEdit.Real64

def ofInt (n : Int) : Real64 := Binary.ofInt .binary64 n

/-- The binary64 number nearest to a quotient, the divisor not zero. -/
def ofFraction (n d : Int) : Real64 := Binary.ofFraction .binary64 n d

def half : Real64 := ofFraction 1 2

end RasterEdit.Real64
