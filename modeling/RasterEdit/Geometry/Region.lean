import RasterEdit.Field

/-!
# Sizes and regions

Extents in pixels. The origin is the top-left corner; an extent may be zero.
-/

set_option autoImplicit false

namespace RasterEdit

structure Size where
  width : Nat
  height : Nat
deriving DecidableEq, Repr

namespace Size

def area (s : Size) : Nat := s.width * s.height

def isEmpty (s : Size) : Bool := s.width == 0 || s.height == 0

def toPair (s : Size) : Int × Int := (s.width, s.height)

/-- A field that holds an extent or a coordinate. -/
def extent (fields : Fields) (name : String) : Checked Nat :=
  (Field.required fields name (Field.integerAtLeast 0)).map Int.toNat

def ofFields (fields : Fields) : Result Size :=
  Checked.toResult "Size"
    (Size.mk <$> extent fields "width" <*> extent fields "height")

def ofItems : List Datum → Result Size
  | width :: height :: _ => ofFields [("width", width), ("height", height)]
  | _ => .error .tupleTooShort

end Size

/-- A rectangle of pixels, right and bottom edges excluded. -/
structure Region where
  x : Nat
  y : Nat
  width : Nat
  height : Nat
deriving DecidableEq, Repr

namespace Region

def right (r : Region) : Nat := r.x + r.width

def bottom (r : Region) : Nat := r.y + r.height

def size (r : Region) : Size := ⟨r.width, r.height⟩

def ofFields (fields : Fields) : Result Region :=
  Checked.toResult "Region"
    (Region.mk <$> Size.extent fields "x" <*> Size.extent fields "y"
      <*> Size.extent fields "width" <*> Size.extent fields "height")

/-- A region from computed coordinates, which must not be negative. -/
def ofInts (x y width height : Int) : Result Region :=
  ofFields [("x", .whole x), ("y", .whole y), ("width", .whole width), ("height", .whole height)]

def ofItems : List Datum → Result Region
  | x :: y :: width :: height :: _ =>
    ofFields [("x", x), ("y", y), ("width", width), ("height", height)]
  | _ => .error .tupleTooShort

def covers (r : Region) (bounds : Size) : Bool :=
  r.x == 0 && r.y == 0 && r.width == bounds.width && r.height == bounds.height

def isWithin (r : Region) (bounds : Size) : Bool :=
  decide (r.right ≤ bounds.width) && decide (r.bottom ≤ bounds.height)

def shown (r : Region) : String := s!"({r.x}, {r.y}, {r.width}, {r.height})"

end Region

end RasterEdit
