import Mathlib.Algebra.BigOperators.Intervals
import Mathlib.Algebra.Order.BigOperators.Group.Finset
import RasterEdit.Proofs.Image.Places

/-!
# Kernels that keep equal samples

A kernel is steady if its values at the taps of every place are moderate and have a sum that is
large for their number: then the fixed-point weights are close enough to one. The triangle is
steady, since the pixel next to the middle weighs about one half or more and no weight is negative.
-/

set_option autoImplicit false

namespace RasterEdit

open Binary

namespace Resample

/-- The sum of the values of a kernel at the taps of a place. -/
def Place.mass (p : Place) (n : Nat) (kernel : Kernel) : ℚ :=
  ((p.values n kernel).map Binary.number).sum

structure Kernel.Steady (kernel : Kernel) : Prop where
  moderate : ∀ {p : Place} {n : Nat}, p.OnAxis n → Moderate (p.values n kernel)
  large : ∀ {p : Place} {n : Nat}, p.OnAxis n → 1 / 2 ^ 8 ≤ p.mass n kernel
  enough : ∀ {p : Place} {n : Nat}, p.OnAxis n →
    ((p.values n kernel).length : ℚ) ≤ 2 ^ 16 * p.mass n kernel

theorem Place.length_values (p : Place) (n : Nat) (kernel : Kernel) :
    (p.values n kernel).length = p.past kernel.support n - p.first kernel.support := by
  simp [values]

theorem Place.OnAxis.length_values_le {p : Place} {n : Nat} (placed : p.OnAxis n)
    (kernel : Kernel) : (p.values n kernel).length ≤ 2 ^ 14 := by
  have inside := p.past_le kernel.support n
  have short := placed.short
  rw [p.length_values]
  omega

/-- A tap is a source pixel. -/
theorem Place.tap_lt {p : Place} {n : Nat} {support j : Nat}
    (tap : j ∈ Finset.Ico (p.first support) (p.past support n)) : j < n :=
  (Finset.mem_Ico.mp tap).2.trans_le (p.past_le support n)

theorem Place.mem_values {p : Place} {n : Nat} {kernel : Kernel} {w : Real64}
    (member : w ∈ p.values n kernel) :
    ∃ j ∈ Finset.Ico (p.first kernel.support) (p.past kernel.support n),
      w = kernel.weight (p.offset j) := by
  obtain ⟨k, tap, rfl⟩ := List.mem_map.mp member
  have inside := List.mem_range.mp tap
  exact ⟨_, Finset.mem_Ico.mpr ⟨Nat.le_add_right _ _, by omega⟩, rfl⟩

theorem Place.mass_eq (p : Place) (n : Nat) (kernel : Kernel) : p.mass n kernel =
    ∑ j ∈ Finset.Ico (p.first kernel.support) (p.past kernel.support n),
      (kernel.weight (p.offset j)).number := by
  rw [mass, values, List.map_map, Finset.sum_Ico_eq_sum_range]
  rfl

/-- Result pixels of equal samples are equal to them. -/
theorem Kernel.Steady.combine_taps {kernel : Kernel} (steady : kernel.Steady) {n m i : Nat}
    {limit : Real64} (axis : Axis n m limit) (inside : i < m) {sample : Nat → Nat} {v : UInt8}
    (equal : ∀ j < n, sample j = v.toNat) :
    combine sample (taps kernel n m limit i) = v := by
  have placed := axis.onAxis inside
  have length := (place m limit i).length_values n kernel
  have near := sum_fixedWeights_near (steady.moderate placed) (placed.length_values_le kernel)
    (steady.large placed) (steady.enough placed)
  rw [taps_eq]
  refine combine_equal (fun k tap => equal _ ?_) near
  rw [List.size_toArray, fixedWeights, List.length_map, length] at tap
  have := (place m limit i).past_le kernel.support n
  dsimp only
  omega

/-! ## The triangle -/

theorem bilinear_weight {x : Real64} (finite : x.isFinite = true) :
    (bilinear.weight x).isFinite = true ∧ 0 ≤ (bilinear.weight x).number ∧
      (bilinear.weight x).number ≤ 2 ∧
      1 - |x.number| - 1 / 2 ^ 53 ≤ (bilinear.weight x).number := by
  have absFinite := (isFinite_abs x).trans finite
  have ordered := lt_iff (by decide) (isNaN_of_isFinite absFinite)
    (isNaN_of_isFinite (x := (1 : Real64)) rfl)
  rw [Real64.number_one, number_abs] at ordered
  by_cases close : Binary.lt x.abs 1 = true
  · have short := ordered.mp close
    have size : |(1 : Real64).number - x.abs.number| * 2 ^ 53 < 2 ^ 54 := by
      rw [Real64.number_one, number_abs, abs_of_pos (by linarith)]
      linarith [abs_nonneg x.number]
    have signed := signedRounded_sub (f := .binary64) (by decide) (by decide)
      (x := (1 : Real64)) rfl absFinite (Real64.lt_overflow_of_lt size)
    have near := (Real64.within_of_signedRounded signed (by decide) size).near
    rw [Real64.number_one, number_abs] at near signed
    obtain ⟨low, high⟩ := abs_le.mp near
    have value : bilinear.weight x = 1 - x.abs := if_pos close
    rw [value]
    exact ⟨signed.isFinite, signed.number_nonneg (by linarith), by linarith [abs_nonneg x.number],
      by linarith⟩
  · have value : bilinear.weight x = 0 := if_neg close
    have far := not_lt.mp (close ∘ ordered.mpr)
    rw [value, Real64.number_zero]
    exact ⟨rfl, le_rfl, by norm_num, by linarith⟩

theorem bilinear_large {p : Place} {n : Nat} (placed : p.OnAxis n) : 1 / 4 ≤ p.mass n bilinear := by
  have wide := placed.wide
  have positive : 0 < p.widening.number := by linarith
  obtain ⟨a, inside, near⟩ := placed.exists_around_middle
  obtain ⟨first, past⟩ := placed.mem_taps (show 1 ≤ 3 by decide) inside (by
    rw [Nat.cast_one, one_mul]
    linarith)
  have offset := placed.offset_within inside
  have distance : |((a : ℚ) + 1 / 2 - p.centre.number) / p.widening.number| ≤
      1 / 2 + 1 / 2 ^ 34 := by
    rw [abs_div, abs_of_pos positive, div_le_iff₀ positive]
    linarith
  have weight := (bilinear_weight offset.finite).2.2.2
  rw [p.mass_eq]
  calc (1 : ℚ) / 4 ≤ 1 - |(p.offset a).number| - 1 / 2 ^ 53 := by linarith [offset.abs_le]
    _ ≤ (bilinear.weight (p.offset a)).number := weight
    _ ≤ _ := Finset.single_le_sum (f := fun j => (bilinear.weight (p.offset j)).number)
        (fun j tap => (bilinear_weight (placed.offset_within (Place.tap_lt tap)).finite).2.1)
        (Finset.mem_Ico.mpr ⟨first, past⟩)

theorem steady_bilinear : bilinear.Steady where
  moderate {p n} placed := by
    intro w member
    obtain ⟨j, tap, rfl⟩ := Place.mem_values member
    obtain ⟨finite, nonneg, small, -⟩ := bilinear_weight
      (placed.offset_within (Place.tap_lt tap)).finite
    exact ⟨finite, by rwa [abs_of_nonneg nonneg]⟩
  large placed := le_trans (by norm_num) (bilinear_large placed)
  enough {p n} placed := by
    have cast : ((p.values n bilinear).length : ℚ) ≤ 2 ^ 14 := by
      exact_mod_cast placed.length_values_le bilinear
    linarith [bilinear_large placed]

end Resample

end RasterEdit
