import RasterEdit.Proofs.Request.Reduced

/-!
# Shares of a side

A side times the rounded factor `n / d`, rounded to pixels. The factor takes the side that it comes
from to `n` exactly, keeps the order of shares, and leaves nothing of a side exactly if the share is
below one half.
-/

set_option autoImplicit false

namespace RasterEdit

open Binary Result

/-- A positive length with three bits to spare in binary64. -/
structure Short (n : Nat) : Prop where
  pos : 0 < n
  lt : n < 2 ^ 50

/-! ## Rounded factors -/

namespace Short

variable {side n d : Nat}

theorem pos_cast (short : Short n) : (0 : ℚ) < n := by exact_mod_cast short.pos

theorem lt_cast (short : Short n) : (n : ℚ) < 2 ^ 50 := by exact_mod_cast short.lt

theorem rounded (part : Short n) (whole : Short d) : Rounded (Real64.ofFraction n d) (n / d) :=
  Real64.rounded_fraction whole.pos (part.lt.trans (by decide))

theorem magnitude_le (part : Short n) (whole : Short d) :
    (Real64.ofFraction n d).magnitude ≤ n := by
  apply Real64.le_natCast_of_rounded (part.rounded whole) (part.lt.trans (by decide))
  exact div_le_self part.pos_cast.le (by exact_mod_cast whole.pos)

theorem magnitude_mono {n' d' : Nat} (part : Short n) (whole : Short d) (part' : Short n')
    (whole' : Short d') (le : n * d' ≤ n' * d) :
    (Real64.ofFraction n d).magnitude ≤ (Real64.ofFraction n' d').magnitude := by
  apply (part.rounded whole).mono (part'.rounded whole')
  rw [div_le_div_iff₀ whole.pos_cast whole'.pos_cast]
  exact_mod_cast le

section Product

variable (length : Short side) (part : Short n) (whole : Short d)

include length part whole

theorem rounded_product : Rounded (Real64.ofInt side * Real64.ofFraction n d)
    (side * (Real64.ofFraction n d).magnitude) := by
  have exact := Real64.isLength_ofNat length.pos length.lt
  have factor := part.rounded whole
  have bound := part.magnitude_le whole
  rw [← exact.value]
  apply rounded_mul (by decide) (by decide) exact.finite factor.isFinite exact.sign
    factor.isNegative
  rw [exact.value]
  calc (side : ℚ) * (Real64.ofFraction n d).magnitude ≤ 2 ^ 50 * 2 ^ 50 := by
        have := (Real64.ofFraction n d).magnitude_nonneg
        gcongr
        · exact length.lt_cast.le
        · exact bound.trans part.lt_cast.le
    _ = 2 ^ 100 := by rw [← pow_add]
    _ < Format.binary64.overflow := Real64.two_pow_lt_overflow (by decide)

/-- The factor is off by half a unit of its last place, so the share is off in the same
proportion. -/
theorem error : |side * (Real64.ofFraction n d).magnitude - (side * n : Nat) / d| ≤
    ((side * n : Nat) / d : ℚ) / 2 ^ 53 := by
  have normal : (2 : ℚ) ^ (Format.binary64.leastQuantum + Format.binary64.precision - 1) ≤
      n / d := by
    have place : Format.binary64.leastQuantum + Format.binary64.precision - 1 = -1022 := rfl
    rw [place, le_div_iff₀ whole.pos_cast]
    calc (2 : ℚ) ^ (-1022 : Int) * d ≤ 2 ^ (-50 : Int) * 2 ^ 50 := by
          gcongr
          · exact one_le_two
          · decide
          · exact whole.lt_cast.le
      _ = 1 := by norm_num
      _ ≤ n := by exact_mod_cast part.pos
  have factor := (part.rounded whole).error normal
  have share : ((side * n : Nat) / d : ℚ) = side * (n / d) := by
    push_cast
    exact mul_div_assoc ..
  rw [share, ← mul_sub, abs_mul, abs_of_nonneg length.pos_cast.le, mul_div_assoc]
  exact mul_le_mul_of_nonneg_left factor length.pos_cast.le

end Product

end Short

/-! ## Shares in pixels -/

namespace ScaleRequest

theorem scaledSide_eq {side : Nat} (length : Short side) (factor : Real64) :
    scaledSide side factor = roundHalfAway (Real64.ofInt side * factor) := by
  have exact := Real64.isLength_ofNat length.pos length.lt
  rw [scaledSide, realOfInt_eq_ok.mpr ⟨exact.finite, rfl⟩, ok_bind]

/-- A greater factor leads to no shorter side. -/
theorem scaledSide_mono {side : Nat} {a b : Real64} (le : a.number ≤ b.number) {k m : Int}
    (left : scaledSide side a = .ok k) (right : scaledSide side b = .ok m) : k ≤ m := by
  obtain ⟨x, expressed, rounded⟩ := bind_eq_ok.mp left
  obtain ⟨y, same, otherRounded⟩ := bind_eq_ok.mp right
  cases expressed.symm.trans same
  obtain ⟨-, rfl⟩ := realOfInt_eq_ok.mp expressed
  have nonneg : 0 ≤ (Real64.ofInt side).number := by
    have leans := Leans.isNegative (Real64.ofInt side)
    rw [Real64.isNegative_ofNat] at leans
    rw [number_eq_magnitude leans]
    exact magnitude_nonneg _
  refine Real64.roundHalfAway_mono ?_ rounded otherRounded
  exact number_mul_mono (by decide) (by decide) nonneg le
    (roundHalfAway_succeeds.mp ⟨k, rounded⟩) (roundHalfAway_succeeds.mp ⟨m, otherRounded⟩)

section Share

variable {side n d : Nat} (length : Short side) (part : Short n) (whole : Short d)

include length part whole

theorem exists_scaledSide :
    ∃ k : Nat, scaledSide side (Real64.ofFraction n d) = .ok (k : Int) := by
  have product := length.rounded_product part whole
  rw [scaledSide_eq length]
  exact Real64.exists_roundHalfAway product.isFinite product.isNegative

omit length in
theorem scaledSide_fraction_mono {n' d' : Nat} (part' : Short n') (whole' : Short d')
    (le : n * d' ≤ n' * d) {k m : Int}
    (left : scaledSide side (Real64.ofFraction n d) = .ok k)
    (right : scaledSide side (Real64.ofFraction n' d') = .ok m) : k ≤ m := by
  refine scaledSide_mono ?_ left right
  rw [(part.rounded whole).number_eq, (part'.rounded whole').number_eq]
  exact part.magnitude_mono whole part' whole' le

theorem scaledSide_eq_zero (small : 2 * (side * n) < d) :
    scaledSide side (Real64.ofFraction n d) = .ok 0 := by
  have error := abs_le.mp (length.error part whole)
  -- The share keeps half a unit of its divisor from one half, more than both roundings move it.
  have share : ((side * n : Nat) / d : ℚ) ≤ 1 / 2 - 1 / 2 ^ 51 := by
    have divisor := whole.lt_cast
    have apart : (2 * (side * n : Nat) + 1 : ℚ) ≤ d := by exact_mod_cast small
    rw [div_le_iff₀ whole.pos_cast]
    linarith
  rw [scaledSide_eq length]
  apply Real64.roundHalfAway_rounded (k := 0) (t := 51) (length.rounded_product part whole)
    (by decide)
  · have nonneg := (Real64.ofFraction n d).magnitude_nonneg
    have term : (0 : ℚ) ≤ side * (Real64.ofFraction n d).magnitude := by positivity
    push_cast
    linarith
  · push_cast
    linarith [error.2]

theorem one_le_scaledSide (large : d ≤ 2 * (side * n)) {k : Int}
    (read : scaledSide side (Real64.ofFraction n d) = .ok k) : 1 ≤ k := by
  have error := abs_le.mp (length.error part whole)
  have share : (1 / 2 : ℚ) ≤ (side * n : Nat) / d := by
    have largeRat : (d : ℚ) ≤ 2 * (side * n : Nat) := by exact_mod_cast large
    rw [le_div_iff₀ whole.pos_cast]
    linarith
  -- The product may be the predecessor of one half, but no less.
  rw [scaledSide_eq length] at read
  apply Real64.one_le_roundHalfAway (length.rounded_product part whole) _ read
  linarith [error.1]

omit length in
/-- The side that the factor comes from is exact. -/
theorem scaledSide_self : scaledSide d (Real64.ofFraction n d) = .ok (n : Int) := by
  have error := whole.error part whole
  have share : ((d * n : Nat) / d : ℚ) = n := by
    push_cast
    exact mul_div_cancel_left₀ _ whole.pos_cast.ne'
  have numerator := part.lt
  have numeratorRat := part.lt_cast
  rw [share, abs_le] at error
  rw [scaledSide_eq whole]
  apply Real64.roundHalfAway_rounded (t := 1) (whole.rounded_product part whole) (by omega)
  · linarith [error.1]
  · linarith [error.2]

/-- The share by a tighter factor `n / d` is inside the box that the side's own factor leads to. It
is empty exactly if less than half a pixel is left. -/
theorem exists_scaledSide_le {n' : Nat} (part' : Short n') (tight : n * side ≤ n' * d) :
    ∃ k : Nat, scaledSide side (Real64.ofFraction n d) = .ok (k : Int) ∧ k ≤ n' ∧
      (k = 0 ↔ 2 * (side * n) < d) := by
  obtain ⟨k, read⟩ := exists_scaledSide length part whole
  have le := scaledSide_fraction_mono part whole part' length tight read
    (scaledSide_self part' length)
  refine ⟨k, read, by exact_mod_cast le, ?_⟩
  constructor
  · rintro rfl
    by_contra large
    have least := one_le_scaledSide length part whole (not_lt.mp large) read
    omega
  · intro small
    rw [scaledSide_eq_zero length part whole small] at read
    cases read
    rfl

end Share

end ScaleRequest

end RasterEdit
