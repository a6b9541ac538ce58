import Mathlib.Algebra.Order.Round
import Mathlib.Data.Rat.Floor
import Mathlib.Tactic.Linarith
import RasterEdit.Image.Colour

/-!
# Colour arithmetic in exact numbers

What the integer formulas on single channels come to: compositing over black is the product over
255, rounded to the nearest integer, the gray value of a colour is its luma to within half a unit
and the error of the fixed-point weights, and full alpha takes nothing from a colour.
-/

set_option autoImplicit false

namespace RasterEdit.Colour

/-! ## Compositing over black -/

theorem toNat_toUInt8 {n : Nat} (small : n < 256) : n.toUInt8.toNat = n :=
  (UInt8.toNat_ofNat' ..).trans (Nat.mod_eq_of_lt small)

/-- Seven more bits make the quotient by 255 from shifts exact. -/
theorem shiftDivide_product {n : Nat} (small : n ≤ 255 * 255) :
    shiftDivide (n * 128 + (128 <<< 7)) >>> 7 = (n + 127) / 255 := by
  simp only [shiftDivide, Nat.shiftRight_eq_div_pow]
  omega

theorem overBlack_toNat (c alpha : UInt8) :
    (overBlack c alpha).toNat = (c.toNat * alpha.toNat + 127) / 255 := by
  have colour := c.toNat_lt
  have cover := alpha.toNat_lt
  have product : c.toNat * alpha.toNat ≤ 255 * 255 := Nat.mul_le_mul (by omega) (by omega)
  unfold overBlack
  split
  · next hidden => rw [hidden, UInt8.toNat_zero, Nat.mul_zero]
  · have weight : alpha.toNat * 255 * 255 * 128 / 65025 = alpha.toNat * 128 := by omega
    simp only [weight, ← Nat.mul_assoc, shiftDivide_product product]
    exact toNat_toUInt8 (by omega)

/-- The product over 255 is never half an integer, and its nearest integer is taken. -/
theorem overBlack_nearest (c alpha : UInt8) :
    |((overBlack c alpha).toNat : ℚ) - c.toNat * alpha.toNat / 255| < 1 / 2 := by
  rw [overBlack_toNat, ← Nat.cast_mul]
  generalize c.toNat * alpha.toNat = n
  generalize quotient : (n + 127) / 255 = k
  have low : (255 * k : ℚ) ≤ n + 127 := by exact_mod_cast (by omega)
  have high : (n : ℚ) ≤ 255 * k + 127 := by exact_mod_cast (by omega)
  rw [abs_lt]
  constructor <;> linarith

theorem round_overBlack (c alpha : UInt8) :
    round (c.toNat * alpha.toNat / 255 : ℚ) = (overBlack c alpha).toNat := by
  obtain ⟨low, high⟩ := abs_lt.mp (overBlack_nearest c alpha)
  rw [round_eq_iff]
  push_cast
  constructor <;> linarith

/-! ## Gray values -/

/-- The weighted sum of a colour in units of `1 / 65536`. -/
def weighted (p : Rgb) : Nat :=
  19595 * (red p).toNat + 38470 * (green p).toNat + 7471 * (blue p).toNat

theorem luma_toNat (p : Rgb) : (luma p).toNat = (weighted p + 32768) / 65536 := by
  have r := (red p).toNat_lt
  have g := (green p).toNat_lt
  have b := (blue p).toNat_lt
  rw [luma, Nat.shiftRight_eq_div_pow]
  apply toNat_toUInt8
  omega

theorem luma_error (p : Rgb) :
    |1000 * ((luma p).toNat : Int) -
      (299 * (red p).toNat + 587 * (green p).toNat + 114 * (blue p).toNat)| ≤ 502 := by
  have r := (red p).toNat_lt
  have g := (green p).toNat_lt
  have b := (blue p).toNat_lt
  rw [luma_toNat, weighted, abs_le]
  omega

theorem luma_mono {p q : Rgb} (r : red p ≤ red q) (g : green p ≤ green q) (b : blue p ≤ blue q) :
    luma p ≤ luma q := by
  rw [UInt8.le_iff_toNat_le] at r g b ⊢
  rw [luma_toNat, luma_toNat, weighted, weighted]
  apply Nat.div_le_div_right
  omega

/-- The weights sum up to one, so gray colours are their own gray values. -/
theorem luma_of_gray {p : Rgb} {v : UInt8} (r : red p = v) (g : green p = v) (b : blue p = v) :
    luma p = v := by
  apply UInt8.toNat_inj.mp
  rw [luma_toNat, weighted, r, g, b]
  omega

/-! ## Premultiplied colour -/

theorem withAlpha_colour_alpha (p : Rgba) : withAlpha (colour p) (alpha p) = p := by
  apply Vector.ext
  intro i hi
  match i, hi with
  | 0, _ => rfl
  | 1, _ => rfl
  | 2, _ => rfl
  | 3, _ => rfl

theorem scaled_full (c : UInt8) : scaled c 255 = c := by
  have byte := c.toNat_lt
  have full : (255 : UInt8).toNat = 255 := rfl
  have quotient : shiftDivide (c.toNat * 255 + 128) = c.toNat := by
    simp only [shiftDivide, Nat.shiftRight_eq_div_pow]
    omega
  rw [scaled, full, quotient]
  exact UInt8.ofNat_toNat

theorem premultiply_of_full {p : Rgba} (full : alpha p = 255) : premultiply p = p := by
  have kept : (colour p).map (scaled · (alpha p)) = colour p := by
    apply Vector.ext
    intro i hi
    rw [Vector.getElem_map, full, scaled_full]
  rw [premultiply, kept, withAlpha_colour_alpha]

theorem unpremultiply_of_extreme {p : Rgba} (extreme : alpha p = 0 ∨ alpha p = 255) :
    unpremultiply p = p := if_pos extreme

end RasterEdit.Colour
