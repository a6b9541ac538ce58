import RasterEdit.Proofs.Binary.SinCos
import RasterEdit.Proofs.Image.Steady
import RasterEdit.Proofs.Image.Window

/-!
# The finer kernel is steady

The computed kernel is next to the windowed sine quotient. Its values half a width around the
middle outweigh the negative ones, of which there are only a few more on either side.
-/

set_option autoImplicit false

namespace RasterEdit

open Binary

/-! ## The computed kernel -/

namespace Real64

theorem pi_eq : Binary.pi .binary64 = .signed false 4614256656552045848 (by decide) := by
  decide +kernel

theorem number_pi : (Binary.pi .binary64).number = 7074237752028440 / 2 ^ 51 := by
  have significand : Format.binary64.significand 4614256656552045848 = 7074237752028440 := by
    decide +kernel
  have quantum : Format.binary64.quantum 4614256656552045848 = -51 := by decide +kernel
  rw [pi_eq]
  change Format.binary64.magnitude 4614256656552045848 = _
  rw [Format.magnitude, significand, quantum]
  norm_num

theorem number_three : (Real64.ofInt 3).number = 3 := by
  exact_mod_cast number_ofInt (n := 3) (by decide)

theorem pi_near : |(7074237752028440 / 2 ^ 51 : ℝ) - Real.pi| ≤ 1 / 2 ^ 52 := by
  have low := Real.pi_gt_d20
  have high := Real.pi_lt_d20
  rw [abs_le]
  constructor <;> norm_num at low high ⊢ <;> linarith

/-- The sine of a tiny angle is the angle itself. -/
theorem sin_eq_self_or {x : Real64} (finite : x.isFinite = true) :
    (x.sin = x ∧ |x.number| ≤ 1 / 2 ^ 27) ∨ 1 / 2 ^ 27 ≤ |x.number| := by
  obtain ⟨m, q, parts⟩ := exists_parts finite
  have size : |x.number| = m.natAbs * 2 ^ q := by rw [abs_number, magnitude_of_parts parts]
  have power : (2 : ℚ) ^ (-27 : ℤ) = 1 / 2 ^ 27 := by norm_num
  rw [size, ← power]
  by_cases tiny : m = 0 ∨ (m.natAbs.log2 : Int) + 1 + q ≤ -27
  · left
    constructor
    · simp only [sin, sinCos, parts, if_pos tiny]
    · rcases tiny with rfl | low
      · rw [Int.natAbs_zero, Nat.cast_zero, zero_mul]
        positivity
      · exact (mul_zpow_le_log2 m.natAbs q).trans (zpow_le_zpow_right₀ one_le_two low)
  · right
    rw [not_or] at tiny
    have leading : ((2 ^ m.natAbs.log2 : ℕ) : ℚ) ≤ m.natAbs := by
      exact_mod_cast Nat.log2_self_le (Int.natAbs_ne_zero.mpr tiny.1)
    rw [Nat.cast_pow, Nat.cast_ofNat, ← zpow_natCast] at leading
    calc (2 : ℚ) ^ (-27 : ℤ) ≤ 2 ^ ((m.natAbs.log2 : ℤ) + q) :=
          zpow_le_zpow_right₀ one_le_two (by omega)
      _ = 2 ^ (m.natAbs.log2 : ℤ) * 2 ^ q := zpow_add₀ two_ne_zero _ _
      _ ≤ m.natAbs * 2 ^ q := by gcongr

section Quotient

variable {x : Real64} (finite : x.isFinite = true)

include finite

theorem div_self_eq_one (nonzero : x.number ≠ 0) :
    (x / x).isFinite = true ∧ (x / x).number = 1 := by
  have signed := signedRounded_div (f := .binary64) (by decide) (by decide) finite finite nonzero
    (by
      rw [div_self nonzero, abs_one]
      exact lt_overflow_of_lt (k := 0) (by norm_num))
  rw [div_self nonzero] at signed
  exact ⟨signed.isFinite, signed.exact (m := 1) (q := 0) (by norm_num) (by decide) (by decide)⟩

/-- Of an angle that is not tiny, the sine is near enough to be divided. -/
theorem sin_div_near (large : 1 / 2 ^ 27 ≤ |x.number|) : (x.sin / x).isFinite = true ∧
    |((x.sin / x).number : ℝ) - Real.sinc x.number| ≤ 1 / 2 ^ 50 + 1 / 2 ^ 25 := by
  have sinFinite : x.sin.isFinite = true := (sinCos_regular finite).1.1
  have sinNear := (sinCos_near finite).1
  have nonzero : x.number ≠ 0 := abs_pos.mp (lt_of_lt_of_le (by norm_num) large)
  have largeReal := (Rat.cast_le (K := ℝ)).mpr large
  push_cast at largeReal
  have positive : 0 < |(x.number : ℝ)| := lt_of_lt_of_le (by norm_num) largeReal
  have quotient : |(x.sin.number : ℝ) / x.number - Real.sinc x.number| ≤ 1 / 2 ^ 25 := by
    rw [Real.sinc_of_ne_zero (abs_pos.mp positive), ← sub_div, abs_div, div_le_iff₀ positive]
    linarith
  have size : |x.sin.number / x.number| ≤ 2 := by
    have real : |(x.sin.number : ℝ) / x.number| ≤ 2 := by
      have bound := Real.abs_sinc_le_one x.number
      rw [abs_le] at bound quotient ⊢
      constructor <;> linarith
    exact_mod_cast real
  have divided := within_div sinFinite finite nonzero (k := 50) (by decide) (by linarith)
  have dividedReal := (Rat.cast_le (K := ℝ)).mpr divided.near
  push_cast at dividedReal
  exact ⟨divided.finite, (abs_sub_le _ _ _).trans (add_le_add dividedReal quotient)⟩

end Quotient

end Real64

namespace Resample

section Sinc

variable {x : Real64} (finite : x.isFinite = true) (small : |x.number| ≤ 4)

include finite small

theorem angle_rounded : SignedRounded (x * Binary.pi .binary64)
    (x.number * (7074237752028440 / 2 ^ 51)) := by
  have piFinite : (Binary.pi .binary64).isFinite = true := by
    rw [Real64.pi_eq]
    decide
  rw [← Real64.number_pi]
  refine signedRounded_mul (by decide) (by decide) finite piFinite
    (Real64.lt_overflow_of_lt (k := 0) ?_)
  rw [Real64.number_pi, abs_mul, abs_of_pos (by norm_num : (0 : ℚ) < 7074237752028440 / 2 ^ 51)]
  linarith

/-- The angle is not below the number of half turns. -/
theorem abs_number_le_angle : |x.number| ≤ |(x * Binary.pi .binary64).number| := by
  refine (angle_rounded finite small).abs_number_ge finite ?_
  rw [abs_mul, abs_of_pos (by norm_num : (0 : ℚ) < 7074237752028440 / 2 ^ 51)]
  exact le_mul_of_one_le_right (abs_nonneg x.number) (by norm_num)

/-- The angle in half turns is off by a share of it. -/
theorem angle_near : |((x * Binary.pi .binary64).number : ℝ) - x.number * Real.pi| ≤
    |(x.number : ℝ)| / 2 ^ 50 + 1 / 2 ^ 100 := by
  have tiny : (2 : ℚ) ^ (-1075 : ℤ) ≤ 2 ^ (-100 : ℤ) :=
    zpow_le_zpow_right₀ one_le_two (by decide)
  have power : (2 : ℚ) ^ (-100 : ℤ) = 1 / 2 ^ 100 := by norm_num
  rw [power] at tiny
  have rounding := (Real64.near_of_signedRounded (angle_rounded finite small)).trans
    (add_le_add le_rfl tiny)
  have roundingReal := (Rat.cast_le (K := ℝ)).mpr rounding
  push_cast at roundingReal
  rw [abs_mul, abs_of_pos (by norm_num : (0 : ℝ) < 7074237752028440 / 2 ^ 51)] at roundingReal
  have factor : |(x.number : ℝ) * (7074237752028440 / 2 ^ 51) - x.number * Real.pi| ≤
      |(x.number : ℝ)| * (1 / 2 ^ 52) := by
    rw [← mul_sub, abs_mul]
    exact mul_le_mul_of_nonneg_left Real64.pi_near (abs_nonneg _)
  refine (abs_sub_le _ _ _).trans ((add_le_add roundingReal factor).trans ?_)
  linarith [abs_nonneg (x.number : ℝ)]

/-- The computed sine quotient of a few half turns. -/
theorem sinc_near : (sinc x).isFinite = true ∧
    |((sinc x).number : ℝ) - Real.sinc (x.number * Real.pi)| ≤ 1 / 2 ^ 24 := by
  by_cases zero : x.isZero = true
  · rw [sinc, if_pos zero, number_of_isZero zero, Real64.number_one]
    refine ⟨rfl, ?_⟩
    norm_num
  · have nonzero : x.number ≠ 0 := zero ∘ (isZero_iff_number (by decide) finite).mpr
    have angleFinite := (angle_rounded finite small).isFinite
    have least := abs_number_le_angle finite small
    have near := angle_near finite small
    rw [sinc, if_neg zero]
    dsimp only
    generalize x * Binary.pi .binary64 = angle at *
    have angleNonzero : angle.number ≠ 0 :=
      abs_pos.mp ((abs_pos.mpr nonzero).trans_le least)
    rcases Real64.sin_eq_self_or angleFinite with ⟨same, tiny⟩ | large
    · obtain ⟨quotientFinite, one⟩ := Real64.div_self_eq_one angleFinite angleNonzero
      rw [same, one, Rat.cast_one]
      refine ⟨quotientFinite, (abs_one_sub_sinc_le _).trans ?_⟩
      have tinyReal := (Rat.cast_le (K := ℝ)).mpr (least.trans tiny)
      push_cast at tinyReal
      have square : (x.number : ℝ) ^ 2 ≤ (1 / 2 ^ 27) ^ 2 := by
        rw [← sq_abs]
        gcongr
      have piSquare : Real.pi ^ 2 ≤ 4 ^ 2 := by
        gcongr
        exact Real.pi_le_four
      rw [mul_pow]
      calc (x.number : ℝ) ^ 2 * Real.pi ^ 2 / 6 ≤ (1 / 2 ^ 27) ^ 2 * 4 ^ 2 / 6 := by gcongr
        _ ≤ 1 / 2 ^ 24 := by norm_num
    · obtain ⟨quotientFinite, quotient⟩ := Real64.sin_div_near angleFinite large
      have largeReal := (Rat.cast_le (K := ℝ)).mpr large
      have leastReal := (Rat.cast_le (K := ℝ)).mpr least
      push_cast at largeReal leastReal
      have positive : 0 < |(angle.number : ℝ)| := lt_of_lt_of_le (by norm_num) largeReal
      have moved : |Real.sinc angle.number - Real.sinc (x.number * Real.pi)| ≤ 1 / 2 ^ 40 := by
        refine (sinc_sub_le (abs_pos.mp positive) _).trans ?_
        rw [div_le_iff₀ positive]
        linarith
      refine ⟨quotientFinite, (abs_sub_le _ _ _).trans ((add_le_add quotient moved).trans ?_)⟩
      norm_num

end Sinc

variable {x : Real64} (finite : x.isFinite = true)

include finite

/-- A third of the distance, under the wide arc of the window. -/
theorem sinc_third_near (small : |x.number| ≤ 3) :
    (sinc (x / Real64.ofInt 3)).isFinite = true ∧
      |((sinc (x / Real64.ofInt 3)).number : ℝ) - Real.sinc (x.number / 3 * Real.pi)| ≤
        1 / 2 ^ 18 := by
  have size : |x.number / 3| ≤ 1 := by
    rw [abs_div, abs_of_pos (by norm_num : (0 : ℚ) < 3)]
    linarith
  have divided := Real64.within_div (y := Real64.ofInt 3) finite (by decide)
    (by rw [Real64.number_three]; norm_num) (k := 53) (by decide)
    (by rw [Real64.number_three]; linarith)
  rw [Real64.number_three] at divided
  generalize x / Real64.ofInt 3 = third at *
  obtain ⟨sincFinite, near⟩ := sinc_near divided.finite (divided.abs_le.trans (by linarith))
  have dividedReal := (Rat.cast_le (K := ℝ)).mpr divided.near
  push_cast at dividedReal
  have moved : |(third.number : ℝ) * Real.pi - x.number / 3 * Real.pi| ≤ 1 / 2 ^ 40 := by
    rw [← sub_mul, abs_mul, abs_of_pos Real.pi_pos]
    calc |(third.number : ℝ) - x.number / 3| * Real.pi ≤ 1 / 2 ^ 53 * 4 := by
          gcongr
          exact Real.pi_le_four
      _ ≤ 1 / 2 ^ 40 := by norm_num
  refine ⟨sincFinite, (abs_sub_le _ _ _).trans ((add_le_add near (sinc_sub_le_of_near moved)).trans
    ?_)⟩
  norm_num

theorem lanczos_near (small : |x.number| ≤ 3) :
    (sinc x * sinc (x / Real64.ofInt 3)).isFinite = true ∧
      |((sinc x * sinc (x / Real64.ofInt 3)).number : ℝ) - window x.number| ≤ 1 / 2 ^ 17 := by
  obtain ⟨leftFinite, left⟩ := sinc_near finite (small.trans (by norm_num))
  obtain ⟨rightFinite, right⟩ := sinc_third_near finite small
  generalize sinc x = a at *
  generalize sinc (x / Real64.ofInt 3) = b at *
  have moved := abs_mul_sub_mul_le left right (Real.abs_sinc_le_one _) (Real.abs_sinc_le_one _)
  have size : |a.number * b.number| ≤ 2 := by
    have real : |(a.number : ℝ) * b.number| ≤ 2 := by
      have bound := abs_window_le x.number
      rw [window, abs_le] at bound
      rw [abs_le] at moved ⊢
      constructor <;> linarith
    exact_mod_cast real
  have below : |a.number * b.number| * 2 ^ 50 < 2 ^ 54 := by linarith
  have product := Real64.within_of_signedRounded (signedRounded_mul (by decide) (by decide)
    leftFinite rightFinite (Real64.lt_overflow_of_lt below)) (by decide) below
  have productReal := (Rat.cast_le (K := ℝ)).mpr product.near
  push_cast at productReal
  refine ⟨product.finite, (abs_sub_le _ _ _).trans ((add_le_add productReal moved).trans ?_)⟩
  norm_num

/-- Past three widths the kernel ends; before that it is next to the windowed sine quotient. -/
theorem lanczos_weight : (lanczos.weight x).isFinite = true ∧
    ((3 ≤ |x.number| ∧ (lanczos.weight x).number = 0) ∨
      (|x.number| ≤ 3 ∧ |((lanczos.weight x).number : ℝ) - window x.number| ≤ 1 / 2 ^ 17)) := by
  have minusThree : (Real64.ofInt (-3)).number = -3 := by
    exact_mod_cast Real64.number_ofInt (n := -3) (by decide)
  have above := le_iff (by decide) (isNaN_of_isFinite (x := Real64.ofInt (-3)) rfl)
    (isNaN_of_isFinite finite)
  have below := lt_iff (by decide) (isNaN_of_isFinite finite)
    (isNaN_of_isFinite (x := Real64.ofInt 3) rfl)
  rw [minusThree] at above
  rw [Real64.number_three] at below
  by_cases inside : (Binary.le (Real64.ofInt (-3)) x && Binary.lt x (Real64.ofInt 3)) = true
  · have value : lanczos.weight x = sinc x * sinc (x / Real64.ofInt 3) := if_pos inside
    rw [Bool.and_eq_true, above, below] at inside
    have small : |x.number| ≤ 3 := abs_le.mpr ⟨inside.1, inside.2.le⟩
    rw [value]
    exact ⟨(lanczos_near finite small).1, .inr ⟨small, (lanczos_near finite small).2⟩⟩
  · have value : lanczos.weight x = 0 := if_neg inside
    rw [Bool.and_eq_true, above, below, not_and_or, not_le, not_lt] at inside
    rw [value, Real64.number_zero]
    refine ⟨rfl, .inl ⟨?_, rfl⟩⟩
    rw [le_abs]
    rcases inside with low | high
    · exact .inr (by linarith)
    · exact .inl high

theorem abs_lanczos_weight_le : |(lanczos.weight x).number| ≤ 2 := by
  obtain ⟨-, ⟨-, zero⟩ | ⟨-, near⟩⟩ := lanczos_weight finite
  · rw [zero, abs_zero]
    norm_num
  · have bound := abs_window_le x.number
    have real : |((lanczos.weight x).number : ℝ)| ≤ 2 := by
      rw [abs_le] at near bound ⊢
      constructor <;> linarith
    exact_mod_cast real

theorem le_lanczos_weight {least : ℚ} (beyond : 3 ≤ |x.number| → least ≤ 0)
    (above : |(x.number : ℝ)| ≤ 3 → (least : ℝ) + 1 / 2 ^ 17 ≤ window x.number) :
    least ≤ (lanczos.weight x).number := by
  obtain ⟨-, ⟨far, zero⟩ | ⟨small, near⟩⟩ := lanczos_weight finite
  · rw [zero]
    exact beyond far
  · have real : (least : ℝ) ≤ (lanczos.weight x).number := by
      linarith [above (by exact_mod_cast small), (abs_le.mp near).1]
    exact_mod_cast real

theorem lanczos_middle (near : |x.number| ≤ 1 / 2 + 1 / 2 ^ 16) :
    6069 / 10000 ≤ (lanczos.weight x).number := by
  refine le_lanczos_weight finite (fun far => by linarith) fun _ => ?_
  have real := (Rat.cast_le (K := ℝ)).mpr near
  push_cast at real ⊢
  linarith [window_middle real]

theorem lanczos_elsewhere
    (place : |x.number| ≤ 1 + 1 / 2 ^ 16 ∨ 2 - 1 / 2 ^ 16 ≤ |x.number|) :
    -(1 / 2 ^ 15) ≤ (lanczos.weight x).number := by
  refine le_lanczos_weight finite (fun _ => by norm_num) fun small => ?_
  have real : |(x.number : ℝ)| ≤ 1 + 1 / 2 ^ 16 ∨
      2 - 1 / 2 ^ 16 ≤ |(x.number : ℝ)| ∧ |(x.number : ℝ)| ≤ 3 := by
    rcases place with inner | outer
    · have cast := (Rat.cast_le (K := ℝ)).mpr inner
      push_cast at cast
      exact .inl cast
    · have cast := (Rat.cast_le (K := ℝ)).mpr outer
      push_cast at cast
      exact .inr ⟨cast, small⟩
  push_cast
  linarith [window_elsewhere real]

theorem lanczos_least : -(1496 / 10000) ≤ (lanczos.weight x).number := by
  refine le_lanczos_weight finite (fun _ => by norm_num) fun small => ?_
  push_cast
  by_cases side : 1 ≤ |(x.number : ℝ)| ∧ |(x.number : ℝ)| ≤ 2
  · linarith [window_side side.1 side.2]
  · have place : |(x.number : ℝ)| ≤ 1 + 1 / 2 ^ 16 ∨
        2 - 1 / 2 ^ 16 ≤ |(x.number : ℝ)| ∧ |(x.number : ℝ)| ≤ 3 := by
      rcases not_and_or.mp side with inner | outer
      · exact .inl (by linarith)
      · exact .inr ⟨by linarith, small⟩
    linarith [window_elsewhere place]

omit finite

/-! ## The mass of the finer kernel -/

/-- A stretch of the axis that is not longer than `r` holds at most `⌊r⌋ + 1` whole positions. -/
theorem mem_Ico_ceil {start r : ℚ} {j : Nat} (low : start ≤ j) (high : j ≤ start + r) :
    j ∈ Finset.Ico ⌈start⌉₊ (⌈start⌉₊ + (⌊r⌋₊ + 1)) := by
  rw [Finset.mem_Ico]
  refine ⟨Nat.ceil_le.mpr low, ?_⟩
  have bound : (j : ℚ) < ⌈start⌉₊ + (⌊r⌋₊ + 1) := by
    linarith [Nat.le_ceil start, Nat.lt_floor_add_one r]
  exact_mod_cast bound

/-- A lobe counts for no more pixels than it holds. -/
theorem sum_lobe_le (taps : Finset Nat) (start : Nat) {c : ℚ} (nonneg : 0 ≤ c) (m : Nat) :
    ∑ j ∈ taps, (if j ∈ Finset.Ico start (start + m) then c else 0) ≤ m * c := by
  rw [Finset.sum_ite_mem, Finset.sum_const, nsmul_eq_mul]
  gcongr
  calc (taps ∩ Finset.Ico start (start + m)).card ≤ (Finset.Ico start (start + m)).card :=
        Finset.card_le_card Finset.inter_subset_right
    _ = m := by rw [Nat.card_Ico, Nat.add_sub_cancel_left]

/-- The pixels between one and two widths before the middle. -/
def Place.leftLobe (p : Place) : Finset Nat :=
  Finset.Ico ⌈p.centre.number - 1 / 2 - 2 * p.widening.number⌉₊
    (⌈p.centre.number - 1 / 2 - 2 * p.widening.number⌉₊ + (⌊p.widening.number⌋₊ + 1))

/-- The pixels between one and two widths after the middle. -/
def Place.rightLobe (p : Place) : Finset Nat :=
  Finset.Ico ⌈p.centre.number - 1 / 2 + p.widening.number⌉₊
    (⌈p.centre.number - 1 / 2 + p.widening.number⌉₊ + (⌊p.widening.number⌋₊ + 1))

section Mass

variable {p : Place} {n : Nat} (placed : p.OnAxis n)

include placed

theorem offset_outside_lobes {j : Nat} (inside : j < n) (left : j ∉ p.leftLobe)
    (right : j ∉ p.rightLobe) :
    |(p.offset j).number| ≤ 1 + 1 / 2 ^ 16 ∨ 2 - 1 / 2 ^ 16 ≤ |(p.offset j).number| := by
  have offset := placed.offset_within inside
  have positive : 0 < p.widening.number := by linarith [placed.wide]
  obtain ⟨low, high⟩ := abs_le.mp offset.near
  by_contra lobe
  rw [not_or, not_le, not_le] at lobe
  rcases le_total 0 (p.offset j).number with nonneg | nonpos
  · rw [abs_of_nonneg nonneg] at lobe
    have above : 1 ≤ ((j : ℚ) + 1 / 2 - p.centre.number) / p.widening.number := by linarith
    have below : ((j : ℚ) + 1 / 2 - p.centre.number) / p.widening.number ≤ 2 := by linarith
    rw [le_div_iff₀ positive] at above
    rw [div_le_iff₀ positive] at below
    exact right (mem_Ico_ceil (by linarith) (by linarith))
  · rw [abs_of_nonpos nonpos] at lobe
    have above : -2 ≤ ((j : ℚ) + 1 / 2 - p.centre.number) / p.widening.number := by linarith
    have below : ((j : ℚ) + 1 / 2 - p.centre.number) / p.widening.number ≤ -1 := by linarith
    rw [le_div_iff₀ positive] at above
    rw [div_le_iff₀ positive] at below
    exact left (mem_Ico_ceil (by linarith) (by linarith))

/-- What a source pixel weighs at least: much in the middle, a little below zero in the two side
lobes, and next to nothing below zero elsewhere. -/
theorem le_weight_of_place {a j : Nat} (inside : j < n)
    (covered : ∀ j, a ≤ j → j < a + ⌊p.widening.number⌋₊ →
      |(j : ℚ) + 1 / 2 - p.centre.number| ≤ p.widening.number / 2 + 1 / 2 ^ 34) :
    (if j ∈ Finset.Ico a (a + ⌊p.widening.number⌋₊) then (6069 / 10000 : ℚ) else 0) -
        (if j ∈ p.leftLobe then 1496 / 10000 else 0) -
        (if j ∈ p.rightLobe then 1496 / 10000 else 0) - 1 / 2 ^ 15 ≤
      (lanczos.weight (p.offset j)).number := by
  have offset := placed.offset_within inside
  have positive : 0 < p.widening.number := by linarith [placed.wide]
  by_cases middle : j ∈ Finset.Ico a (a + ⌊p.widening.number⌋₊)
  · have range := Finset.mem_Ico.mp middle
    have distance : |((j : ℚ) + 1 / 2 - p.centre.number) / p.widening.number| ≤
        1 / 2 + 1 / 2 ^ 34 := by
      rw [abs_div, abs_of_pos positive, div_le_iff₀ positive]
      linarith [covered j range.1 range.2, placed.wide]
    have weight := lanczos_middle offset.finite (by linarith [offset.abs_le])
    rw [if_pos middle]
    split <;> split <;> linarith
  · rw [if_neg middle]
    have least := lanczos_least offset.finite
    by_cases left : j ∈ p.leftLobe
    · rw [if_pos left]
      split <;> linarith
    · by_cases right : j ∈ p.rightLobe
      · rw [if_neg left, if_pos right]
        linarith
      · rw [if_neg left, if_neg right]
        linarith [lanczos_elsewhere offset.finite (offset_outside_lobes placed inside left right)]

theorem lanczos_mass_ge : 6069 / 10000 * (⌊p.widening.number⌋₊ : ℚ) -
    2 * ((⌊p.widening.number⌋₊ + 1) * (1496 / 10000)) -
      (p.past 3 n - p.first 3 : Nat) / 2 ^ 15 ≤ p.mass n lanczos := by
  obtain ⟨a, fits, covered⟩ := placed.exists_covered
  have middle : Finset.Ico a (a + ⌊p.widening.number⌋₊) ⊆ Finset.Ico (p.first 3) (p.past 3 n) := by
    intro j member
    have range := Finset.mem_Ico.mp member
    refine Finset.mem_Ico.mpr (placed.mem_taps (by decide) (by omega) ?_)
    push_cast
    linarith [covered j range.1 range.2, placed.wide]
  have middleSum : ∑ j ∈ Finset.Ico (p.first 3) (p.past 3 n),
      (if j ∈ Finset.Ico a (a + ⌊p.widening.number⌋₊) then (6069 / 10000 : ℚ) else 0) =
        (⌊p.widening.number⌋₊ : ℚ) * (6069 / 10000) := by
    rw [Finset.sum_ite_mem, Finset.inter_eq_right.mpr middle, Finset.sum_const, Nat.card_Ico,
      Nat.add_sub_cancel_left, nsmul_eq_mul]
  have leftSum := sum_lobe_le (Finset.Ico (p.first 3) (p.past 3 n))
    ⌈p.centre.number - 1 / 2 - 2 * p.widening.number⌉₊ (c := 1496 / 10000) (by norm_num)
    (⌊p.widening.number⌋₊ + 1)
  have rightSum := sum_lobe_le (Finset.Ico (p.first 3) (p.past 3 n))
    ⌈p.centre.number - 1 / 2 + p.widening.number⌉₊ (c := 1496 / 10000) (by norm_num)
    (⌊p.widening.number⌋₊ + 1)
  rw [Place.mass_eq]
  have pointwise := Finset.sum_le_sum (s := Finset.Ico (p.first 3) (p.past 3 n))
    fun j tap => le_weight_of_place placed (Place.tap_lt tap) covered
  rw [Finset.sum_sub_distrib, Finset.sum_sub_distrib, Finset.sum_sub_distrib, middleSum,
    Finset.sum_const, Nat.card_Ico, nsmul_eq_mul] at pointwise
  refine le_trans ?_ pointwise
  push_cast at leftSum rightSum
  unfold Place.leftLobe Place.rightLobe
  linarith

end Mass

theorem steady_lanczos : lanczos.Steady := by
  have mass {p : Place} {n : Nat} (placed : p.OnAxis n) :
      ((p.values n lanczos).length : ℚ) ≤ 2 ^ 16 * p.mass n lanczos ∧
        1 / 2 ^ 8 ≤ p.mass n lanczos := by
    have wide := placed.wide
    have some : (1 : ℚ) ≤ ⌊p.widening.number⌋₊ := by
      exact_mod_cast Nat.le_floor (n := 1) (by exact_mod_cast wide)
    have count := placed.count_le (show 3 ≤ 3 from le_rfl)
    have length := p.length_values n lanczos
    have ge := lanczos_mass_ge placed
    have above := Nat.lt_floor_add_one p.widening.number
    rw [length]
    push_cast at count
    change ((p.past 3 n - p.first 3 : Nat) : ℚ) ≤ _ ∧ _
    constructor <;> linarith
  refine ⟨fun {p n} placed => ?_, fun placed => (mass placed).2, fun placed => (mass placed).1⟩
  intro w member
  obtain ⟨j, tap, rfl⟩ := Place.mem_values member
  have finite := (placed.offset_within (Place.tap_lt tap)).finite
  exact ⟨(lanczos_weight finite).1, abs_lanczos_weight_le finite⟩

end Resample

end RasterEdit
