import RasterEdit.Failure

/-!
# Blocks of samples

A block is an array of any rank with samples of one kind, last axis fastest. Rasters are read from
blocks and shown as blocks; a block whose elements are no samples can only be refused.
-/

set_option autoImplicit false

namespace RasterEdit

inductive Element where
  | sample (kind : SampleKind)
  | other (name : String)
deriving DecidableEq, Repr

namespace Element

def shownName : Element → String
  | sample kind => kind.shownName
  | other name => name

/-- The pattern of a small integer as an element. -/
def encode (element : Element) (n : Int) : Nat :=
  match element with
  | sample kind => (kind.encode n).toNat
  | other _ => 0

def bytes : Element → Nat
  | sample kind => kind.bytes
  | other _ => 0

end Element

/-- Number of elements of an array with the given axes. -/
def elementCount (shape : List Nat) : Nat := shape.foldr (· * ·) 1

/-- An array of bit patterns. -/
structure Block where
  element : Element
  shape : List Nat
  patterns : Array Nat
  size_patterns : patterns.size = elementCount shape
deriving DecidableEq

namespace Block

def ofFn (element : Element) (shape : List Nat) (pattern : Nat → Nat) : Block where
  element := element
  shape := shape
  patterns := Array.ofFn fun i : Fin (elementCount shape) => pattern i
  size_patterns := Array.size_ofFn

def zero (element : Element) (shape : List Nat) : Block := ofFn element shape fun _ => 0

/-- Element `i` is `(step · i + start) mod modulus`. -/
def ramp (element : Element) (shape : List Nat) (step start modulus : Int) : Block :=
  ofFn element shape fun i => element.encode (Int.fmod (step * (i : Int) + start) modulus)

/-- The pattern at a position of the flattened block, zero outside. -/
def patternAt (b : Block) (i : Nat) : Nat := b.patterns.getD i 0

/-- Picks entries of the last axis. -/
def gather (b : Block) (order : List Nat) : Result Block :=
  match b.shape.reverse with
  | [] => .error .tooManyIndices
  | last :: front =>
    match order.find? (last ≤ ·) with
    | some index => .error (.channelOutOfBounds index (b.shape.length - 1) last)
    | none =>
      let count := order.length
      .ok (ofFn b.element (front.reverse ++ [count]) fun i =>
        b.patternAt (i / count * last + order.getD (i % count) 0))

/-- Whether shapes, elements and all numbers agree. A NaN makes blocks differ. -/
def sameNumbers (a b : Block) : Bool :=
  a.element == b.element && a.shape == b.shape &&
    match a.element with
    | .sample kind =>
      (Array.zip a.patterns b.patterns).all fun (p, q) =>
        kind.sameNumber (BitVec.ofNat _ p) (BitVec.ofNat _ q)
    | .other _ => a.patterns == b.patterns

/-- Bytes of the stored form, most significant first. -/
def toBytes (b : Block) : ByteArray :=
  let count := b.element.bytes
  b.patterns.foldl
    (fun bytes pattern =>
      (List.range count).foldl
        (fun bytes k => bytes.push (pattern >>> (8 * (count - 1 - k))).toUInt8) bytes)
    ByteArray.empty

end Block

end RasterEdit
