import RasterEdit.Proofs.Raster.Samples

/-!
# Mirrored rasters

Flips reverse all columns or all rows, so a sequence of flips is settled by which of the two it
reverses an odd number of times. There are four such mirrors. One after another is again one of
them, and each undoes itself.
-/

set_option autoImplicit false

namespace RasterEdit

/-! ## Mirrors -/

/-- Which directions of a raster are reversed. -/
structure Mirror where
  columns : Bool
  rows : Bool
deriving DecidableEq

namespace Mirror

def none : Mirror := ⟨false, false⟩

def ofFlip : Flip → Mirror
  | .horizontal => ⟨true, false⟩
  | .vertical => ⟨false, true⟩

/-- One mirror after another: what is reversed twice is not reversed. -/
def comp (m n : Mirror) : Mirror := ⟨m.columns != n.columns, m.rows != n.rows⟩

/-- What a sequence of flips comes to: the parities of the numbers of its horizontal and of its
vertical flips. -/
def ofFlips (flips : List Flip) : Mirror :=
  ⟨flips.count .horizontal % 2 == 1, flips.count .vertical % 2 == 1⟩

theorem ofFlips_nil : ofFlips [] = none := by
  decide

private theorem odd_succ (n : Nat) : ((n + 1) % 2 == 1) = (true != (n % 2 == 1)) := by
  rcases Nat.mod_two_eq_zero_or_one n with even | odd
  · rw [Nat.add_mod, even]
    rfl
  · rw [Nat.add_mod, odd]
    rfl

theorem ofFlips_cons (direction : Flip) (flips : List Flip) :
    ofFlips (direction :: flips) = (ofFlip direction).comp (ofFlips flips) := by
  cases direction with
  | horizontal => simp [ofFlips, ofFlip, comp, odd_succ]
  | vertical => simp [ofFlips, ofFlip, comp, odd_succ]

/-- Where a row of the mirrored raster is found in the raster itself. -/
def row (m : Mirror) (size : Size) (i : Nat) : Nat := if m.rows then size.height - 1 - i else i

/-- Where a column of the mirrored raster is found in the raster itself. -/
def column (m : Mirror) (size : Size) (j : Nat) : Nat :=
  if m.columns then size.width - 1 - j else j

section Composition

variable (m n : Mirror) {size : Size}

private theorem reversed_twice {i length : Nat} (inside : i < length) :
    length - 1 - (length - 1 - i) = i := by
  omega

theorem row_row {i : Nat} (inside : i < size.height) :
    m.row size (n.row size i) = (m.comp n).row size i := by
  obtain ⟨columns, rows⟩ := m
  obtain ⟨columns', rows'⟩ := n
  cases rows <;> cases rows'
  · rfl
  · rfl
  · rfl
  · exact reversed_twice inside

theorem column_column {j : Nat} (inside : j < size.width) :
    m.column size (n.column size j) = (m.comp n).column size j := by
  obtain ⟨columns, rows⟩ := m
  obtain ⟨columns', rows'⟩ := n
  cases columns <;> cases columns'
  · rfl
  · rfl
  · rfl
  · exact reversed_twice inside

end Composition

end Mirror

/-! ## Grids -/

namespace Grid

/-- The grid with its columns and its rows reversed as a mirror says. -/
def mirror {α : Type} (m : Mirror) (g : Grid α) : Grid α :=
  let reversed := if m.columns then g.flipHorizontal else g
  if m.rows then reversed.flipVertical else reversed

theorem mirror_ofFlip {α : Type} (direction : Flip) (g : Grid α) :
    g.mirror (.ofFlip direction) = g.flip direction := by
  cases direction <;> rfl

theorem draws_flipHorizontal (size : Size) :
    Draws flipHorizontal size id (size.width - 1 - ·) := by
  intro α g width_eq height_eq row col hr hc
  have rowIn : row < g.height := hr
  have colIn : col < g.width := hc
  refine ⟨rowIn, (by omega : size.width - 1 - col < g.width),
    (get_flipHorizontal g row col rowIn colIn).trans ?_⟩
  exact g.get_congr rfl (by rw [width_eq]) ..

theorem draws_flipVertical (size : Size) :
    Draws flipVertical size (size.height - 1 - ·) id := by
  intro α g width_eq height_eq row col hr hc
  have rowIn : row < g.height := hr
  have colIn : col < g.width := hc
  refine ⟨(by omega : size.height - 1 - row < g.height), colIn,
    (get_flipVertical g row col rowIn colIn).trans ?_⟩
  exact g.get_congr (by rw [height_eq]) rfl ..

theorem resizes_mirror (m : Mirror) (size : Size) : Resizes (mirror m) size size := by
  intro α g width_eq height_eq
  obtain ⟨columns, rows⟩ := m
  cases columns <;> cases rows <;> exact ⟨width_eq, height_eq⟩

theorem draws_mirror (m : Mirror) (size : Size) :
    Draws (mirror m) size (m.row size) (m.column size) := by
  obtain ⟨columns, rows⟩ := m
  cases columns with
  | false =>
    cases rows with
    | false => exact fun _ _ _ _ _ hr hc => ⟨hr, hc, rfl⟩
    | true => exact draws_flipVertical size
  | true =>
    cases rows with
    | false => exact draws_flipHorizontal size
    | true =>
      exact Draws.comp (draws_flipHorizontal size) (resizes_mirror ⟨true, false⟩ size)
        (draws_flipVertical size)

end Grid

/-! ## Rasters -/

namespace Raster

def mirror (m : Mirror) (r : Raster) : Raster := r.rearrange (Grid.mirror m)

variable (m n : Mirror) (r : Raster)

theorem mirror_none : r.mirror .none = r := r.rearrange_id

theorem mirror_ofFlip (direction : Flip) :
    r.mirror (.ofFlip direction) = r.rearrange (Grid.flip direction) :=
  rearrange_congr fun g _ _ => g.mirror_ofFlip direction

theorem size_mirror : (r.mirror m).size = r.size := by
  obtain ⟨columns, rows⟩ := m
  cases columns <;> cases rows <;> cases r <;> rfl

theorem shape_mirror : (r.mirror m).toBlock.shape = r.toBlock.shape := by
  obtain ⟨columns, rows⟩ := m
  cases r with
  | custom kind axis pixels => cases axis <;> cases columns <;> cases rows <;> rfl
  | _ => cases columns <;> cases rows <;> rfl

theorem mirror_mirror : (r.mirror m).mirror n = r.mirror (m.comp n) := by
  have sides := Grid.resizes_mirror
  refine (r.rearrange_rearrange ..).trans (rearrange_congr fun g width_eq height_eq => ?_)
  refine Grid.eq_of_draws
    (Grid.Draws.comp (Grid.draws_mirror m r.size) (sides m r.size) (Grid.draws_mirror n r.size))
    (Grid.draws_mirror (m.comp n) r.size) (Grid.Resizes.comp (sides m r.size) (sides n r.size))
    (sides _ _) ?_ width_eq height_eq
  intro row col hr hc
  exact ⟨m.row_row n hr, m.column_column n hc⟩

/-- Every channel of a pixel comes from the same place. -/
theorem sampleAt_mirror {row col channel : Nat} (hr : row < r.height) (hc : col < r.width)
    (hk : channel < r.channels) : (r.mirror m).sampleAt row col channel =
      r.sampleAt (m.row r.size row) (m.column r.size col) channel := by
  have size_eq := r.size_mirror m
  refine sampleAt_rearrange (Grid.draws_mirror m r.size) ?_ ?_ hk
  · exact hr.trans_eq (congrArg Size.height size_eq).symm
  · exact hc.trans_eq (congrArg Size.width size_eq).symm

end Raster

end RasterEdit
