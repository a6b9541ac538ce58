import RasterEdit.Binary.Arithmetic

/-!
# Samples

The kinds of numbers that a pixel buffer may hold. A sample is the bit pattern of its number, so
moving samples never changes them; `SampleKind.form` says which number a pattern stands for.
-/

set_option autoImplicit false

namespace RasterEdit

/-- Kind of every sample of a buffer. `wide16` holds the same numbers as `uint16` with the most
significant byte first in memory, and counts as a different kind. It is the only such kind, as image
decoders produce no other one; extended floats, whose width depends on the machine, have no kind
either. -/
inductive SampleKind where
  | boolean
  | uint8 | uint16 | wide16 | uint32 | uint64
  | int8 | int16 | int32 | int64
  | float16 | float32 | float64
deriving DecidableEq, Repr

namespace SampleKind

/-- The numbers a kind stands for. -/
inductive Form where
  | truth
  | natural
  | integer
  | real (format : Format)

def form : SampleKind → Form
  | boolean => .truth
  | uint8 | uint16 | wide16 | uint32 | uint64 => .natural
  | int8 | int16 | int32 | int64 => .integer
  | float16 => .real .binary16
  | float32 => .real .binary32
  | float64 => .real .binary64

def bits : SampleKind → Nat
  | boolean => 1
  | uint8 | int8 => 8
  | uint16 | wide16 | int16 | float16 => 16
  | uint32 | int32 | float32 => 32
  | uint64 | int64 | float64 => 64

def bytes (kind : SampleKind) : Nat := (kind.bits + 7) / 8

/-- Name of the kind, without byte order. -/
def name : SampleKind → String
  | boolean => "bool"
  | uint8 => "uint8"
  | uint16 | wide16 => "uint16"
  | uint32 => "uint32"
  | uint64 => "uint64"
  | int8 => "int8"
  | int16 => "int16"
  | int32 => "int32"
  | int64 => "int64"
  | float16 => "float16"
  | float32 => "float32"
  | float64 => "float64"

/-- Name of the kind in messages, where an unusual byte order shows. -/
def shownName : SampleKind → String
  | wide16 => ">u2"
  | kind => kind.name

def ofName? : String → Option SampleKind
  | "bool" => some boolean
  | "uint8" => some uint8
  | "uint16" => some uint16
  | "uint32" => some uint32
  | "uint64" => some uint64
  | "int8" => some int8
  | "int16" => some int16
  | "int32" => some int32
  | "int64" => some int64
  | "float16" => some float16
  | "float32" => some float32
  | "float64" => some float64
  | _ => none

/-- A sample: the bit pattern of its number. -/
abbrev Sample (kind : SampleKind) : Type := BitVec kind.bits

/-- The pattern of a small integer in a kind. -/
def encode (kind : SampleKind) (n : Int) : kind.Sample :=
  match kind.form with
  | .truth => if n = 0 then 0 else 1
  | .natural | .integer => BitVec.ofInt _ n
  | .real format => BitVec.ofNat _ (Binary.ofInt format n).toBits

/-- Whether two patterns stand for equal numbers: zeros of either sign are equal and a NaN equals
nothing. -/
def sameNumber (kind : SampleKind) (a b : kind.Sample) : Bool :=
  match kind.form with
  | .real format => Binary.equal (Binary.ofBits format a.toNat) (Binary.ofBits format b.toNat)
  | _ => a == b

end SampleKind

end RasterEdit
