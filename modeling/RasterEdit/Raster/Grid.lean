/-!
# Grids

A rectangle of cells, row by row from the top left. Moving cells and changing their values are
separate operations, so they commute by construction.
-/

set_option autoImplicit false

namespace RasterEdit

structure Grid (α : Type) where
  width : Nat
  height : Nat
  cells : Array α
  size_cells : cells.size = width * height
deriving DecidableEq

namespace Grid

variable {α β γ : Type}

theorem index_lt {width height row col : Nat} (hr : row < height) (hc : col < width) :
    row * width + col < width * height := by
  have step : (row + 1) * width ≤ height * width := Nat.mul_le_mul_right width hr
  rw [Nat.add_mul, Nat.one_mul] at step
  rw [Nat.mul_comm width height]
  omega

theorem row_lt {width height i : Nat} (h : i < width * height) : i / width < height :=
  Nat.div_lt_of_lt_mul h

theorem col_lt {width height i : Nat} (h : i < width * height) : i % width < width := by
  apply Nat.mod_lt
  rcases Nat.eq_zero_or_pos width with zero | positive
  · simp [zero] at h
  · exact positive

def get (g : Grid α) (row col : Nat) (hr : row < g.height) (hc : col < g.width) : α :=
  have bound : row * g.width + col < g.cells.size := by rw [g.size_cells]; exact index_lt hr hc
  g.cells[row * g.width + col]

def ofFn (width height : Nat)
    (f : (row col : Nat) → row < height → col < width → α) : Grid α where
  width := width
  height := height
  cells := Array.ofFn fun i : Fin (width * height) =>
    f (i / width) (i % width) (row_lt i.isLt) (col_lt i.isLt)
  size_cells := Array.size_ofFn

def replicate (width height : Nat) (cell : α) : Grid α where
  width := width
  height := height
  cells := Array.replicate (width * height) cell
  size_cells := Array.size_replicate

def map (f : α → β) (g : Grid α) : Grid β where
  width := g.width
  height := g.height
  cells := g.cells.map f
  size_cells := by rw [Array.size_map, g.size_cells]

/-- The cells of a rectangle inside the grid. -/
def window (g : Grid α) (x y width height : Nat) (hx : x + width ≤ g.width)
    (hy : y + height ≤ g.height) : Grid α :=
  ofFn width height fun row col hr hc =>
    g.get (y + row) (x + col) (by omega) (by omega)

def flipHorizontal (g : Grid α) : Grid α :=
  ofFn g.width g.height fun row col hr _ =>
    g.get row (g.width - 1 - col) hr (by omega)

def flipVertical (g : Grid α) : Grid α :=
  ofFn g.width g.height fun row col _ hc =>
    g.get (g.height - 1 - row) col (by omega) hc

/-- The cell at a position, which is moved to the nearest edge if it lies outside. -/
def clamped (g : Grid α) (row col : Int) (hw : 0 < g.width) (hh : 0 < g.height) : α :=
  g.get (min row.toNat (g.height - 1)) (min col.toNat (g.width - 1)) (by omega) (by omega)

/-! ## Cells of the results

Every operation above is determined by its sides and by what it holds at each position. -/

theorem ext_get {g h : Grid α} (width_eq : g.width = h.width) (height_eq : g.height = h.height)
    (get_eq : ∀ row col (hr : row < g.height) (hc : col < g.width),
      g.get row col hr hc = h.get row col (height_eq ▸ hr) (width_eq ▸ hc)) : g = h := by
  obtain ⟨width, height, cells, size_cells⟩ := g
  obtain ⟨width', height', cells', size_cells'⟩ := h
  obtain rfl : width = width' := width_eq
  obtain rfl : height = height' := height_eq
  congr
  apply Array.ext
  · rw [size_cells, size_cells']
  · intro i hi _
    have bound : i < width * height := size_cells ▸ hi
    have position : i / width * width + i % width = i := Nat.div_add_mod' i width
    have cell := get_eq (i / width) (i % width) (row_lt bound) (col_lt bound)
    simpa only [get, position] using cell

@[simp] theorem width_ofFn (width height : Nat)
    (f : (row col : Nat) → row < height → col < width → α) :
    (ofFn width height f).width = width := rfl

@[simp] theorem height_ofFn (width height : Nat)
    (f : (row col : Nat) → row < height → col < width → α) :
    (ofFn width height f).height = height := rfl

@[simp] theorem width_map (f : α → β) (g : Grid α) : (g.map f).width = g.width := rfl

@[simp] theorem height_map (f : α → β) (g : Grid α) : (g.map f).height = g.height := rfl

@[simp] theorem get_ofFn {width height : Nat}
    (f : (row col : Nat) → row < height → col < width → α) (row col : Nat)
    (hr : row < height) (hc : col < width) : (ofFn width height f).get row col hr hc =
      f row col hr hc := by
  have column_pos : 0 < width := Nat.zero_lt_of_lt hc
  have row_eq : (row * width + col) / width = row := by
    rw [Nat.mul_comm, Nat.mul_add_div column_pos, Nat.div_eq_of_lt hc, Nat.add_zero]
  have col_eq : (row * width + col) % width = col := by
    rw [Nat.mul_comm, Nat.mul_add_mod, Nat.mod_eq_of_lt hc]
  simp only [get, ofFn, Array.getElem_ofFn, row_eq, col_eq]

@[simp] theorem get_map (f : α → β) (g : Grid α) (row col : Nat) (hr : row < g.height)
    (hc : col < g.width) : (g.map f).get row col hr hc = f (g.get row col hr hc) := by
  simp only [get, map, Array.getElem_map]

@[simp] theorem get_replicate {w h : Nat} (cell : α) {row col : Nat} (hr : row < h) (hc : col < w) :
    (replicate w h cell).get row col hr hc = cell :=
  Array.getElem_replicate ..

theorem eq_replicate {g : Grid α} {cell : α} (same : ∀ row col hr hc, g.get row col hr hc = cell) :
    g = .replicate g.width g.height cell :=
  ext_get rfl rfl fun row col hr hc => (same row col hr hc).trans (get_replicate ..).symm

theorem ofFn_eq_replicate {width height : Nat}
    {f : (row col : Nat) → row < height → col < width → α} {cell : α}
    (same : ∀ row col hr hc, f row col hr hc = cell) :
    ofFn width height f = .replicate width height cell :=
  eq_replicate fun row col hr hc => (get_ofFn f row col hr hc).trans (same row col hr hc)

theorem map_replicate (f : α → β) (width height : Nat) (cell : α) :
    (replicate width height cell).map f = .replicate width height (f cell) :=
  eq_replicate fun _ _ hr hc =>
    (get_map ..).trans (congrArg f (get_replicate (w := width) cell hr hc))

theorem map_map (f : α → β) (k : β → γ) (g : Grid α) :
    (g.map f).map k = g.map fun a => k (f a) := by
  simp only [map, Array.map_map, Function.comp_def]

theorem map_id_of_forall {f : α → α} (fixed : ∀ a, f a = a) (g : Grid α) : g.map f = g :=
  ext_get rfl rfl fun row col hr hc => (get_map f g row col hr hc).trans (fixed _)

@[simp] theorem get_window (g : Grid α) (x y width height : Nat) (hx : x + width ≤ g.width)
    (hy : y + height ≤ g.height) (row col : Nat) (hr : row < height) (hc : col < width) :
    (g.window x y width height hx hy).get row col hr hc =
      g.get (y + row) (x + col) (by omega) (by omega) :=
  get_ofFn _ row col hr hc

@[simp] theorem get_flipHorizontal (g : Grid α) (row col : Nat) (hr : row < g.height)
    (hc : col < g.width) :
    g.flipHorizontal.get row col hr hc = g.get row (g.width - 1 - col) hr (by omega) :=
  get_ofFn _ row col hr hc

@[simp] theorem get_flipVertical (g : Grid α) (row col : Nat) (hr : row < g.height)
    (hc : col < g.width) :
    g.flipVertical.get row col hr hc = g.get (g.height - 1 - row) col (by omega) hc :=
  get_ofFn _ row col hr hc

/-- Changing the values of the cells of a rectangle is the same before and after taking it out. -/
theorem map_window (f : α → β) (g : Grid α) (x y width height : Nat)
    (hx : x + width ≤ g.width) (hy : y + height ≤ g.height) :
    (g.map f).window x y width height hx hy = (g.window x y width height hx hy).map f :=
  ext_get rfl rfl fun row col (hr : row < height) (hc : col < width) =>
    calc ((g.map f).window x y width height hx hy).get row col hr hc
      _ = (g.map f).get (y + row) (x + col) (by rw [height_map]; omega)
          (by rw [width_map]; omega) := get_window ..
      _ = f (g.get (y + row) (x + col) (by omega) (by omega)) := get_map ..
      _ = f ((g.window x y width height hx hy).get row col hr hc) :=
          congrArg f (get_window ..).symm
      _ = ((g.window x y width height hx hy).map f).get row col hr hc := (get_map ..).symm

theorem map_flipHorizontal (f : α → β) (g : Grid α) :
    (g.map f).flipHorizontal = g.flipHorizontal.map f :=
  ext_get rfl rfl fun row col (hr : row < g.height) (hc : col < g.width) =>
    calc (g.map f).flipHorizontal.get row col hr hc
      _ = (g.map f).get row (g.width - 1 - col) hr (by rw [width_map]; omega) :=
          get_flipHorizontal (g.map f) ..
      _ = f (g.get row (g.width - 1 - col) hr (by omega)) := get_map ..
      _ = f (g.flipHorizontal.get row col hr hc) := congrArg f (get_flipHorizontal ..).symm
      _ = (g.flipHorizontal.map f).get row col hr hc := (get_map ..).symm

theorem map_flipVertical (f : α → β) (g : Grid α) :
    (g.map f).flipVertical = g.flipVertical.map f :=
  ext_get rfl rfl fun row col (hr : row < g.height) (hc : col < g.width) =>
    calc (g.map f).flipVertical.get row col hr hc
      _ = (g.map f).get (g.height - 1 - row) col (by rw [height_map]; omega) hc :=
          get_flipVertical (g.map f) ..
      _ = f (g.get (g.height - 1 - row) col (by omega) hc) := get_map ..
      _ = f (g.flipVertical.get row col hr hc) := congrArg f (get_flipVertical ..).symm
      _ = (g.flipVertical.map f).get row col hr hc := (get_map ..).symm

/-- Equal positions hold the same cell. -/
theorem get_congr (g : Grid α) {row row' col col' : Nat} (row_eq : row = row') (col_eq : col = col')
    (hr : row < g.height) (hc : col < g.width) :
    g.get row col hr hc = g.get row' col' (row_eq ▸ hr) (col_eq ▸ hc) := by
  subst row_eq col_eq
  rfl

end Grid

end RasterEdit
