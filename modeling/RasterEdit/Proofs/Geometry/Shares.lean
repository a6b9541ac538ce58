import RasterEdit.Proofs.Binary.Order
import RasterEdit.Proofs.Binary.Remainder
import RasterEdit.Proofs.Geometry.HalfAway

/-!
# Shares of a length

Two fractions that add up to one divide a length without a gap: their products are rounded twice,
in binary64 and to pixels, but neither rounding loses a half, so not both shares can be rounded
down.
-/

set_option autoImplicit false

namespace RasterEdit

open Binary

namespace Real64

variable {x : Real64}

/-- A number that is not negative is rounded to the floor of the sum with one half. A zero may have
a minus sign. -/
theorem exists_floor_add_half (finite : x.isFinite = true) (nonneg : 0 ≤ x.number) :
    ∃ k : Nat, roundHalfAway x = .ok (k : Int) ∧ ⌊(x.abs + Real64.half).magnitude⌋ = k := by
  cases sign : x.isNegative with
  | false =>
    obtain ⟨k, read⟩ := exists_roundHalfAway finite sign
    refine ⟨k, read, ?_⟩
    rw [roundHalfAway_eq finite, sign] at read
    exact Except.ok.inj read
  | true =>
    have leans := leans_of_number_nonneg (by decide) nonneg
    have none : x.magnitude = 0 := by
      have same := number_eq_magnitude leans
      cases x with
      | nan => cases sign
      | signed s rank h =>
        obtain rfl | rfl := leans
        · exact Format.magnitude_zero .binary64
        · cases sign
    refine ⟨0, ?_, floor_add_half (t := 1) finite (by decide) (by simp [none]) ?_⟩
    · rw [roundHalfAway_whole finite (by exact_mod_cast none) (Nat.zero_le _)]
      split <;> rfl
    · rw [none]
      norm_num

section Rounded

variable {v : ℚ} (signed : SignedRounded x v) (nonneg : 0 ≤ v) {n : Nat}

include signed nonneg

/-- Halves are expressed exactly, so a value that reaches one is rounded up. -/
theorem le_floor_add_half (small : n < 2 ^ 52) (reached : n - 1 / 2 ≤ v) :
    (n : Int) ≤ ⌊(x.abs + Real64.half).magnitude⌋ := by
  have rounded := signed.rounded
  rw [abs_of_nonneg nonneg] at rounded
  have half : (n : ℚ) - 1 / 2 ≤ x.magnitude := by
    rcases Nat.eq_zero_or_pos n with rfl | positive
    · have nonneg := x.magnitude_nonneg
      push_cast
      linarith
    · have units : ((2 * n - 1 : Nat) : ℚ) / 2 ^ 1 = n - 1 / 2 := by
        have one : 1 ≤ 2 * n := by omega
        push_cast [one]
        ring
      rw [← units] at reached ⊢
      rw [← magnitude_abs]
      exact div_le_of_rounded rounded (by omega) (by omega) reached
  have sum := rounded_add_half signed.isFinite
  rw [Int.le_floor]
  exact_mod_cast natCast_le_of_rounded sum (by omega) (by linarith)

theorem floor_add_half_le (small : n < 2 ^ 52) (le : v ≤ n) :
    ⌊(x.abs + Real64.half).magnitude⌋ ≤ n := by
  have rounded := signed.rounded
  rw [abs_of_nonneg nonneg] at rounded
  have whole : x.magnitude ≤ n := by
    rw [← magnitude_abs]
    exact le_natCast_of_rounded rounded (by omega) le
  have sum := rounded_add_half signed.isFinite
  have units : ((2 * n + 1 : Nat) : ℚ) / 2 ^ 1 = n + 1 / 2 := by
    push_cast
    ring
  have bound : (x.abs + Real64.half).magnitude ≤ n + 1 / 2 := by
    rw [← units]
    exact le_div_of_rounded sum (by omega) (by omega) (by rw [units]; linarith)
  have below : ⌊(x.abs + Real64.half).magnitude⌋ < (n : Int) + 1 := by
    rw [Int.floor_lt]
    push_cast
    linarith
  omega

end Rounded

section Shares

variable {a b : Real64} (leading : a.isFinite = true) (trailing : b.isFinite = true)
  (aNonneg : 0 ≤ a.number) (bNonneg : 0 ≤ b.number) (whole : a.number + b.number = 1) {side : Nat}
  (small : side < 2 ^ 50)

include leading aNonneg small in
theorem signedRounded_share (fraction : a.number ≤ 1) :
    SignedRounded (a * Real64.ofInt side) (a.number * side) := by
  have expressed : (Real64.ofInt side).number = side := by
    exact_mod_cast number_ofInt (n := side) (by omega)
  have below : |a.number * (Real64.ofInt side).number| < Format.binary64.overflow := by
    rw [expressed, abs_of_nonneg (by positivity)]
    calc a.number * side ≤ 1 * side := by gcongr
      _ = side := one_mul _
      _ < 2 ^ 50 := by exact_mod_cast small
      _ < Format.binary64.overflow := two_pow_lt_overflow (by decide)
  rw [← expressed]
  exact signedRounded_mul (by decide) (by decide) leading (isFinite_of_small (by omega)) below

include leading trailing aNonneg bNonneg whole small

/-- Two shares that add up to the whole are rounded to lengths that leave no gap. -/
theorem exists_shares : ∃ k l : Nat, roundHalfAway (a * Real64.ofInt side) = .ok (k : Int) ∧
    roundHalfAway (b * Real64.ofInt side) = .ok (l : Int) ∧ k ≤ side ∧ side ≤ k + l := by
  have aShare := signedRounded_share leading aNonneg small (by linarith)
  have bShare := signedRounded_share trailing bNonneg small (by linarith)
  have u_nonneg : 0 ≤ a.number * side := by positivity
  have v_nonneg : 0 ≤ b.number * side := by positivity
  have total : a.number * side + b.number * side = side := by rw [← add_mul, whole, one_mul]
  obtain ⟨k, readLeading, k_eq⟩ :=
    exists_floor_add_half aShare.isFinite (aShare.number_nonneg u_nonneg)
  obtain ⟨l, readTrailing, l_eq⟩ :=
    exists_floor_add_half bShare.isFinite (bShare.number_nonneg v_nonneg)
  generalize a.number * side = u at *
  generalize b.number * side = v at *
  -- The integer nearest to the first share leaves the second at least half a pixel short of it.
  obtain ⟨n, n_eq⟩ : ∃ n : Nat, ⌊u + 1 / 2⌋ = n :=
    ⟨⌊u + 1 / 2⌋.toNat, (Int.toNat_of_nonneg (Int.floor_nonneg.mpr (by linarith))).symm⟩
  obtain ⟨low, high⟩ := Int.floor_eq_iff.mp n_eq
  push_cast at low high
  have inside : n ≤ side := by
    have near : (n : ℚ) < side + 1 := by linarith
    exact Nat.lt_succ_iff.mp (by exact_mod_cast near)
  have first := le_floor_add_half aShare u_nonneg (n := n) (by omega) (by linarith)
  have second := le_floor_add_half bShare v_nonneg (n := side - n) (by omega) (by
    push_cast [inside]
    linarith)
  have bound := floor_add_half_le aShare u_nonneg (n := side) (by omega) (by linarith)
  refine ⟨k, l, readLeading, readTrailing, ?_, ?_⟩
  · omega
  · omega

end Shares

end Real64

end RasterEdit
