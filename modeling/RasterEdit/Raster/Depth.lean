import RasterEdit.Raster.Block

/-!
# Depth

Samples of every kind rescaled to bytes: natural numbers over their full range, integers over the
part that is not negative, binary values from 0 to 1. Values outside are cut off and NaN is zero.
-/

set_option autoImplicit false

namespace RasterEdit

namespace Depth

/-- A binary value cut to `[0, 1]`; NaN is zero. -/
def cut {f : Format} (x : Binary f) : Binary f :=
  if x.isNaN then 0 else if Binary.lt x 0 then 0 else if Binary.lt 1 x then 1 else x

/-- A binary value cut to `[0, 1]` and times 255, in the value's own format. -/
def ofUnit? {f : Format} (x : Binary f) : Option Int := (cut x * Binary.ofInt f 255).nearestInt?

/-- An integer over the range up to `top`, computed in binary64. -/
def ofRange? (top n : Int) : Option Int :=
  let factor := Real64.ofInt 255 / Real64.ofInt top
  (Real64.ofInt (max n 0) * factor).nearestInt?

/-- The byte value of a sample before it is stored as a byte; none if the rescaled sample is not
finite. -/
def value? (kind : SampleKind) (s : kind.Sample) : Option Int :=
  match kind with
  | .uint8 => some s.toNat
  | kind =>
    match kind.form with
    | .truth => some (if s.toNat = 0 then 0 else 255)
    | .natural => ofRange? ((1 <<< kind.bits : Nat) - 1) s.toNat
    | .integer => ofRange? ((1 <<< (kind.bits - 1) : Nat) - 1) s.toInt
    | .real format => ofUnit? (Binary.ofBits format s.toNat)

def byte (kind : SampleKind) (s : kind.Sample) : UInt8 :=
  ((value? kind s).getD 0).toNat.toUInt8

end Depth

/-- A block of samples rescaled to bytes. -/
def Block.rescaled (b : Block) : Block :=
  Block.ofFn (.sample .uint8) b.shape fun i =>
    match b.element with
    | .sample kind => (Depth.byte kind (BitVec.ofNat _ (b.patternAt i))).toNat
    | .other _ => 0

end RasterEdit
