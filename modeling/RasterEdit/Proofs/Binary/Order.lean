import RasterEdit.Proofs.Binary.Nearest

/-!
# The order of numbers

Values that are not NaN stand for rational numbers, infinity for the power of two next to the finite
ones. Comparisons of values are comparisons of these numbers.
-/

set_option autoImplicit false

namespace RasterEdit

theorem Format.magnitude_zero (f : Format) : f.magnitude 0 = 0 := by
  rw [magnitude, significand_zero, Nat.cast_zero, zero_mul]

theorem Format.magnitude_eq_zero_iff {f : Format} (precise : 0 < f.precision) {rank : Nat} :
    f.magnitude rank = 0 ↔ rank = 0 := by
  constructor
  · intro vanishes
    have le := (magnitude_le_iff precise).mp (vanishes.trans f.magnitude_zero.symm).le
    exact Nat.le_zero.mp le
  · rintro rfl
    exact f.magnitude_zero

namespace Binary

variable {f : Format}

/-- The number that a value stands for. -/
def number : Binary f → ℚ
  | .nan => 0
  | .signed s rank _ => if s then -f.magnitude rank else f.magnitude rank

theorem number_eq_magnitude {x : Binary f} (leans : x.Leans false) : x.number = x.magnitude := by
  cases x with
  | nan => rfl
  | signed s rank h =>
    rcases leans with rfl | rfl
    · cases s <;> simp [number, magnitude, f.magnitude_zero]
    · rfl

theorem Rounded.number_eq {x : Binary f} {v : ℚ} (rounded : Rounded x v) :
    x.number = x.magnitude := by
  obtain ⟨rank, below, rfl⟩ := exists_of_unsigned rounded.isFinite rounded.isNegative
  rfl

theorem isNaN_of_isFinite {x : Binary f} (finite : x.isFinite = true) : x.isNaN = false := by
  cases x with
  | nan => cases finite
  | signed s rank h => rfl

theorem number_of_isNaN {x : Binary f} (unordered : x.isNaN = true) : x.number = 0 := by
  cases x with
  | nan => rfl
  | signed s rank h => cases unordered

theorem leans_of_number_nonneg (precise : 0 < f.precision) {x : Binary f}
    (nonneg : 0 ≤ x.number) : x.Leans false := by
  cases x with
  | nan => trivial
  | signed s rank h =>
    cases s with
    | false => exact .inr rfl
    | true =>
      have magnitude_nonneg := f.magnitude_nonneg rank
      change 0 ≤ -f.magnitude rank at nonneg
      exact .inl ((Format.magnitude_eq_zero_iff precise).mp (by linarith))

/-! ## Comparisons -/

/-- Comparing with NaN never succeeds. -/
theorem not_isNaN_of_le {x y : Binary f} (le : Binary.le x y = true) :
    x.isNaN = false ∧ y.isNaN = false := by
  cases x with
  | nan => cases le
  | signed s a ha =>
    cases y with
    | nan => cases le
    | signed t b hb => exact ⟨rfl, rfl⟩

section Comparisons

variable (precise : 0 < f.precision)

include precise

/-- The sign goes first: of two values with a minus sign the one with the lesser rank is greater. -/
theorem key_le_key_iff {s t : Bool} {a b : Nat} (ha : a ≤ f.top) (hb : b ≤ f.top) :
    key s a ≤ key t b ↔ (signed s a ha).number ≤ (signed t b hb).number := by
  have left := f.magnitude_nonneg a
  have right := f.magnitude_nonneg b
  have ranks {m n : Nat} := Format.magnitude_le_iff (a := m) (b := n) precise
  cases s with
  | false =>
    cases t with
    | false => exact Int.ofNat_le.trans ranks.symm
    | true =>
      change (a : Int) ≤ -b ↔ f.magnitude a ≤ -f.magnitude b
      constructor
      · intro le
        obtain ⟨rfl, rfl⟩ : a = 0 ∧ b = 0 := by omega
        rw [f.magnitude_zero, neg_zero]
      · intro le
        have vanishes {n : Nat} (zero : f.magnitude n = 0) : n = 0 :=
          (Format.magnitude_eq_zero_iff precise).mp zero
        have zeroLeft := vanishes (by linarith : f.magnitude a = 0)
        have zeroRight := vanishes (by linarith : f.magnitude b = 0)
        omega
  | true =>
    cases t with
    | false =>
      change -(a : Int) ≤ b ↔ -f.magnitude a ≤ f.magnitude b
      exact iff_of_true (by omega) (by linarith)
    | true =>
      change -(a : Int) ≤ -b ↔ -f.magnitude a ≤ -f.magnitude b
      rw [neg_le_neg_iff, neg_le_neg_iff, Int.ofNat_le, ranks]

theorem le_iff {x y : Binary f} (left : x.isNaN = false) (right : y.isNaN = false) :
    Binary.le x y = true ↔ x.number ≤ y.number := by
  cases x with
  | nan => cases left
  | signed s a ha =>
    cases y with
    | nan => cases right
    | signed t b hb =>
      rw [← key_le_key_iff precise ha hb]
      simp only [Binary.le, compare?, bne_iff_ne, ne_eq, compare_gt_iff_gt, not_lt]

theorem lt_iff {x y : Binary f} (left : x.isNaN = false) (right : y.isNaN = false) :
    Binary.lt x y = true ↔ x.number < y.number := by
  rw [← not_le, ← le_iff precise right left]
  cases x with
  | nan => cases left
  | signed s a ha =>
    cases y with
    | nan => cases right
    | signed t b hb =>
      simp only [Binary.lt, Binary.le, compare?, beq_iff_eq, Option.some.injEq, bne_iff_ne, ne_eq,
        compare_gt_iff_gt, compare_lt_iff_lt, not_lt, not_le]

theorem equal_iff {x y : Binary f} (left : x.isNaN = false) (right : y.isNaN = false) :
    Binary.equal x y = true ↔ x.number = y.number := by
  rw [le_antisymm_iff (a := x.number), ← le_iff precise left right, ← le_iff precise right left]
  cases x with
  | nan => cases left
  | signed s a ha =>
    cases y with
    | nan => cases right
    | signed t b hb =>
      simp only [Binary.equal, Binary.le, compare?, beq_iff_eq, Option.some.injEq, bne_iff_ne,
        ne_eq, compare_gt_iff_gt, compare_eq_iff_eq, not_lt]
      exact le_antisymm_iff

end Comparisons

end Binary

end RasterEdit
