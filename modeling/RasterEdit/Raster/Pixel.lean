/-!
# Pixels and channel orders

A pixel is the vector of its channels. The canonical orders are red, green, blue and red, green,
blue, alpha. Each stored order carries two tables: where each canonical channel is found, and which
canonical channel each stored one holds.
-/

set_option autoImplicit false

namespace RasterEdit

abbrev Rgb : Type := Vector UInt8 3

abbrev Rgba : Type := Vector UInt8 4

namespace Pixel

variable {α : Type} {n : Nat}

def first (p : Vector α (n + 1)) : α := p.get 0

def second (p : Vector α (n + 2)) : α := p.get 1

def third (p : Vector α (n + 3)) : α := p.get 2

def fourth (p : Vector α (n + 4)) : α := p.get 3

end Pixel

/-- Stored order of three colour channels. -/
inductive ColourOrder where
  | rgb | bgr
deriving DecidableEq, Repr

/-- Stored order of three colour channels and straight alpha. -/
inductive AlphaOrder where
  | rgba | argb | abgr
deriving DecidableEq, Repr

/-- For each canonical channel, its position in a stored pixel. -/
def ColourOrder.toCanonical : ColourOrder → Vector (Fin 3) 3
  | .rgb => #v[0, 1, 2]
  | .bgr => #v[2, 1, 0]

/-- For each stored channel, its position in a canonical pixel. -/
def ColourOrder.ofCanonical : ColourOrder → Vector (Fin 3) 3
  | .rgb => #v[0, 1, 2]
  | .bgr => #v[2, 1, 0]

/-- For each canonical channel, its position in a stored pixel. -/
def AlphaOrder.toCanonical : AlphaOrder → Vector (Fin 4) 4
  | .rgba => #v[0, 1, 2, 3]
  | .argb => #v[1, 2, 3, 0]
  | .abgr => #v[3, 2, 1, 0]

/-- For each stored channel, its position in a canonical pixel. -/
def AlphaOrder.ofCanonical : AlphaOrder → Vector (Fin 4) 4
  | .rgba => #v[0, 1, 2, 3]
  | .argb => #v[3, 0, 1, 2]
  | .abgr => #v[3, 2, 1, 0]

/-- The colour order that an alpha order leaves when alpha is dropped: only a fully reversed order
keeps blue first. -/
def AlphaOrder.withoutAlpha : AlphaOrder → ColourOrder
  | .abgr => .bgr
  | _ => .rgb

/-- The channels of a pixel taken in the given order. -/
def reorder {α : Type} {n : Nat} (order : Vector (Fin n) n) (pixel : Vector α n) : Vector α n :=
  order.map pixel.get

theorem getElem_reorder {α : Type} {n : Nat} (order : Vector (Fin n) n) (pixel : Vector α n)
    (i : Nat) (hi : i < n) : (reorder order pixel)[i] = pixel[order[i]] :=
  Vector.getElem_map ..

/-- Orders that undo each other on positions undo each other on pixels. -/
theorem reorder_reorder {α : Type} {n : Nat} {first second : Vector (Fin n) n}
    (undone : ∀ i : Fin n, first[second[i]] = i) (pixel : Vector α n) :
    reorder second (reorder first pixel) = pixel := by
  ext i hi
  rw [getElem_reorder, Fin.getElem_fin, getElem_reorder, Fin.getElem_fin]
  have position : (first[second[i]] : Nat) = i := congrArg Fin.val (undone ⟨i, hi⟩)
  simp only [Fin.getElem_fin] at position
  simp only [position]

theorem ColourOrder.reorder_toCanonical_ofCanonical {α : Type} (order : ColourOrder)
    (pixel : Vector α 3) : reorder order.toCanonical (reorder order.ofCanonical pixel) = pixel :=
  reorder_reorder (by cases order <;> decide) pixel

theorem ColourOrder.reorder_ofCanonical_toCanonical {α : Type} (order : ColourOrder)
    (pixel : Vector α 3) : reorder order.ofCanonical (reorder order.toCanonical pixel) = pixel :=
  reorder_reorder (by cases order <;> decide) pixel

theorem AlphaOrder.reorder_toCanonical_ofCanonical {α : Type} (order : AlphaOrder)
    (pixel : Vector α 4) : reorder order.toCanonical (reorder order.ofCanonical pixel) = pixel :=
  reorder_reorder (by cases order <;> decide) pixel

theorem AlphaOrder.reorder_ofCanonical_toCanonical {α : Type} (order : AlphaOrder)
    (pixel : Vector α 4) : reorder order.ofCanonical (reorder order.toCanonical pixel) = pixel :=
  reorder_reorder (by cases order <;> decide) pixel

end RasterEdit
