import RasterEdit.Image.Turn
import RasterEdit.Proofs.Geometry.Lengths
import RasterEdit.Proofs.Image.Colour

/-!
# Sampled pixels

A pixel under an affine map is transparent or an interpolation of four pixels of the source. What
these four have in common the interpolation keeps exactly, whatever the map is: inside the source
the fractions of the coordinates are finite, and no multiple of a difference that vanishes changes a
number.
-/

set_option autoImplicit false

namespace RasterEdit

open Binary

/-! ## Fractions of coordinates -/

namespace Real64

variable {x : Real64} (finite : x.isFinite = true)

include finite

/-- Floors are exact: only numbers with a fraction change, and those are small. -/
theorem number_ofInt_floor :
    (Real64.ofInt ⌊x.number⌋).isFinite = true ∧ (Real64.ofInt ⌊x.number⌋).number = ⌊x.number⌋ := by
  obtain ⟨m, q, parts⟩ := exists_parts finite
  obtain ⟨number, small, least⟩ := number_of_parts parts
  have hidden : 2 * Format.binary64.hidden = 2 ^ 53 := rfl
  by_cases whole : 0 ≤ q
  · have integer : x.number = (m * 2 ^ q.toNat : Int) := by
      rw [number, Int.cast_mul, Int.cast_pow, Int.cast_ofNat, ← zpow_natCast,
        Int.toNat_of_nonneg whole]
    have below := abs_number_lt finite
    rw [integer] at below ⊢
    rw [Int.floor_intCast]
    have rounded := signedRounded_ofInt (f := .binary64) (by decide) (by decide)
      (n := m * 2 ^ q.toNat) (by linarith)
    refine ⟨rounded.isFinite, rounded.exact (m := m.natAbs) (q := q) ?_ small least⟩
    rw [← integer, number, abs_mul, abs_of_pos (by positivity : (0 : ℚ) < 2 ^ q),
      Nat.cast_natAbs, Int.cast_abs]
  · have short : |x.number| < 2 ^ 52 := by
      have scale : (0 : ℚ) < 2 ^ q := by positivity
      have fraction : (2 : ℚ) ^ q ≤ 2 ^ (-1 : Int) := zpow_le_zpow_right₀ one_le_two (by omega)
      have significand : |(m : ℚ)| < 2 ^ 53 := by
        rw [← Int.cast_abs, ← Nat.cast_natAbs]
        exact_mod_cast small
      calc |x.number| = |(m : ℚ)| * 2 ^ q := by rw [number, abs_mul, abs_of_pos scale]
        _ < 2 ^ 53 * 2 ^ q := by gcongr
        _ ≤ 2 ^ 53 * 2 ^ (-1 : Int) := by gcongr
        _ = 2 ^ 52 := by norm_num
    obtain ⟨above, below⟩ := abs_lt.mp short
    have floorLow : -2 ^ 52 ≤ ⌊x.number⌋ := Int.le_floor.mpr (by push_cast; exact above.le)
    have floorHigh : ⌊x.number⌋ < 2 ^ 52 := Int.floor_lt.mpr (by push_cast; exact below)
    exact ⟨isFinite_of_small (by omega), number_ofInt (by omega)⟩

theorem isFinite_sub_floor : (x - Real64.ofInt ⌊x.number⌋).isFinite = true := by
  obtain ⟨floorFinite, floor⟩ := number_ofInt_floor finite
  refine (signedRounded_sub (by decide) (by decide) finite floorFinite ?_).isFinite
  rw [floor, Int.self_sub_floor, Int.abs_fract]
  calc Int.fract x.number < 2 ^ 0 := Int.fract_lt_one _
    _ < Format.binary64.overflow := two_pow_lt_overflow (by decide)

theorem isFinite_sub_half : (x - Real64.half).isFinite = true := by
  have half : Real64.half.number = 1 / 2 := magnitude_half
  refine (signedRounded_sub (by decide) (by decide) finite (by decide) ?_).isFinite
  calc |x.number - Real64.half.number| ≤ |x.number| + |Real64.half.number| := abs_sub ..
    _ = |x.number| + 1 / 2 := by rw [half]; norm_num
    _ < Format.binary64.overflow := abs_number_lt finite

end Real64

namespace Turn

/-- Coordinates on an axis are finite, however long the axis is. -/
theorem isFinite_of_isInside {x : Real64} {n : Nat} (inside : isInside x n = true) :
    x.isFinite = true := by
  simp only [isInside, Bool.and_eq_true, Bool.not_eq_true'] at inside
  obtain ⟨nonneg, below⟩ := inside
  cases x with
  | nan => cases below
  | signed s rank h =>
    rw [isFinite_signed]
    by_contra infinite
    obtain rfl : rank = Format.binary64.top := le_antisymm h (not_lt.mp infinite)
    cases s with
    | true => cases nonneg
    | false =>
      generalize Real64.ofInt n = limit at below
      cases limit with
      | nan => cases below
      | signed t b hb =>
        simp only [Binary.lt, compare?, beq_iff_eq, Option.some.injEq, compare_lt_iff_lt] at below
        have atMost : key t b ≤ b := by unfold key; split <;> omega
        have atLeast : key false Format.binary64.top = Format.binary64.top := rfl
        omega

/-- What the fraction of a coordinate is taken from, and the fraction. -/
theorem isFinite_fraction {x : Real64} {n : Nat} (inside : isInside x n = true) :
    (x - Real64.half - Real64.ofInt ((x - Real64.half).floor?.getD 0)).isFinite = true := by
  have finite := Real64.isFinite_sub_half (isFinite_of_isInside inside)
  rw [floor?_eq finite, Option.getD_some]
  exact Real64.isFinite_sub_floor finite

/-! ## Interpolation -/

/-- Numbers that are equal have nothing between them. -/
theorem number_between {v w t : Real64} (left : v.isFinite = true) (right : w.isFinite = true)
    (fraction : t.isFinite = true) (same : v.number = w.number) :
    (between v w t).isFinite = true ∧ (between v w t).number = v.number := by
  have none : w.number - v.number = 0 := by rw [same, sub_self]
  have difference := signedRounded_sub (f := .binary64) (by decide) (by decide) right left (by
    rw [none, abs_zero]
    exact Format.binary64.overflow_pos)
  rw [none] at difference
  have vanishes : (w - v).isZero = true :=
    (isZero_iff_number (by decide) difference.isFinite).mpr
      (difference.exact (m := 0) (q := 0) (by simp) (by decide) (by decide))
  have kept : Same (between v w t) v :=
    add_zero_same (by decide) left (isZero_mul vanishes fraction)
  exact ⟨kept.isFinite left, kept.number_eq⟩

variable {g : Grid Rgba}

/-- A channel that is the same in all pixels is kept. -/
theorem get_sample {hw : 0 < g.width} {hh : 0 < g.height} {x y : Real64}
    (across : isInside x g.width = true) (down : isInside y g.height = true) {k : Fin 4} {v : UInt8}
    (same : ∀ row col hr hc, (g.get row col hr hc).get k = v) : (sample g hw hh x y).get k = v := by
  have xFinite := isFinite_fraction across
  have yFinite := isFinite_fraction down
  have byte := v.toNat_lt
  have numberFinite : (Real64.ofInt v.toNat).isFinite = true := Real64.isFinite_of_small (by omega)
  have number : (Real64.ofInt v.toNat).number = v.toNat := Real64.number_ofInt (by omega)
  have clamped (row col : Int) : (g.clamped row col hw hh).get k = v := same ..
  have cell (f : Fin 4 → UInt8) : (Vector.ofFn f).get k = f k := by
    change (Vector.ofFn f)[(k : Nat)] = f k
    rw [Vector.getElem_ofFn]
  simp only [sample, cell, clamped]
  generalize x - Real64.half - Real64.ofInt ((x - Real64.half).floor?.getD 0) = dx at xFinite ⊢
  generalize y - Real64.half - Real64.ofInt ((y - Real64.half).floor?.getD 0) = dy at yFinite ⊢
  generalize Real64.ofInt v.toNat = value at numberFinite number ⊢
  obtain ⟨upperFinite, upper⟩ := number_between numberFinite numberFinite xFinite rfl
  rw [ite_self]
  obtain ⟨finite, kept⟩ := number_between upperFinite upperFinite yFinite rfl
  have whole : (between (between value value dx) (between value value dx) dy).number =
      ((v.toNat : Int) : ℚ) := by
    rw [kept, upper, number, Int.cast_natCast]
  rw [truncate?_of_number finite whole, Option.getD_some, Int.toNat_natCast]
  exact UInt8.ofNat_toNat

/-- A pixel of the canvas: outside of the source transparent, and inside what all pixels of the
source have in common. -/
inductive Shows (g : Grid Rgba) (p : Rgba) : Prop where
  | outside (nothing : p = transparent)
  | inside (kept : ∀ (k : Fin 4) (v : UInt8),
      (∀ row col hr hc, (g.get row col hr hc).get k = v) → p.get k = v)

theorem shows_pixelAt (g : Grid Rgba) (x y : Real64) : Shows g (pixelAt g x y) := by
  unfold pixelAt
  split
  · split
    · next inside =>
      obtain ⟨across, down⟩ := Bool.and_eq_true_iff.mp inside
      exact .inside fun k v same => get_sample across down same
    · exact .outside rfl
  · exact .outside rfl

theorem shows_render (g : Grid Rgba) (s : Sampling) {width height row col : Nat}
    (hr : row < height) (hc : col < width) :
    Shows g ((render s width height g).get row col hr hc) := by
  have cell : (render s width height g).get row col hr hc = pixelAt g _ _ := Grid.get_ofFn ..
  rw [cell]
  exact shows_pixelAt ..

/-! ## Sources without gaps -/

/-- Every pixel has full alpha. -/
def IsFull (g : Grid Rgba) : Prop := ∀ row col hr hc, Colour.alpha (g.get row col hr hc) = 255

theorem map_premultiply (full : IsFull g) : g.map Colour.premultiply = g := by
  refine Grid.ext_get rfl rfl ?_
  intro row col hr hc
  exact (Grid.get_map ..).trans (Colour.premultiply_of_full (full row col hr hc))

theorem Shows.unpremultiply (full : IsFull g) {p : Rgba} (shown : Shows g p) :
    Shows g (Colour.unpremultiply p) := by
  have extreme : Colour.alpha p = 0 ∨ Colour.alpha p = 255 := by
    cases shown with
    | outside nothing => exact .inl (nothing ▸ rfl)
    | inside kept => exact .inr (kept 3 255 full)
  rwa [Colour.unpremultiply_of_extreme extreme]

/-- Alpha is that of the source or zero, and neither divides a colour. -/
theorem shows_renderStraight (full : IsFull g) (s : Sampling) {width height row col : Nat}
    (hr : row < height) (hc : col < width) :
    Shows g ((renderStraight s width height g).get row col hr hc) := by
  have cell : (renderStraight s width height g).get row col hr hc =
      Colour.unpremultiply ((render s width height (g.map Colour.premultiply)).get row col hr hc) :=
    Grid.get_map ..
  rw [cell, map_premultiply full]
  exact (shows_render g s hr hc).unpremultiply full

end Turn

end RasterEdit
