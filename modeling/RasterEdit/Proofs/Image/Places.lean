import RasterEdit.Proofs.Image.Weights

/-!
# Places of result pixels

A result pixel has a middle on the axis of the source and a width, both computed with rounding. The
middle lies on the axis, a widened pixel lies on it as a whole, and the source pixels near the
middle are among the taps.
-/

set_option autoImplicit false

namespace RasterEdit

open Binary

namespace Resample

/-- Where a result pixel lies on the axis of the source, and how wide the kernel is there. -/
structure Place where
  centre : Real64
  widening : Real64

/-- The place of pixel `i`, one of `m` that the axis up to `limit` becomes. -/
def place (m : Nat) (limit : Real64) (i : Nat) : Place :=
  let scale := limit / Real64.ofInt m
  ⟨(Real64.ofInt i + Real64.half) * scale, if Binary.lt scale 1 then 1 else scale⟩

namespace Place

variable (p : Place) (support n : Nat)

def first : Nat :=
  (truncated (p.centre - Real64.ofInt support * p.widening + Real64.half)).toNat

def past : Nat :=
  (min (n : Int) (truncated (p.centre + Real64.ofInt support * p.widening + Real64.half))).toNat

/-- How far the middle of source pixel `j` is from the centre, in widths. -/
def offset (j : Nat) : Real64 :=
  (Real64.ofInt j - p.centre + Real64.half) * (1 / p.widening)

/-- Values of a kernel at the source pixels from the first to the last tap. -/
def values (kernel : Kernel) : List Real64 :=
  (List.range (p.past kernel.support n - p.first kernel.support)).map fun k =>
    kernel.weight (p.offset (p.first kernel.support + k))

end Place

theorem taps_eq (kernel : Kernel) (n m : Nat) (limit : Real64) (i : Nat) :
    taps kernel n m limit i = ⟨(place m limit i).first kernel.support,
      (fixedWeights ((place m limit i).values n kernel)).toArray⟩ := by
  have index (first : Nat) : (fun k : Nat => kernel.weight ((Real64.ofInt ((k : Int) + first) -
      (place m limit i).centre + Real64.half) * (1 / (place m limit i).widening))) =
        fun k => kernel.weight ((place m limit i).offset (first + k)) := by
    funext k
    rw [Place.offset, Nat.cast_add, Int.add_comm (k : Int)]
  unfold Place.values
  rw [← index]
  rfl

/-! ## The middle and the width -/

/-- What the resize operations ask of an axis: a part of it, not less than a pixel, becomes as many
pixels as can be counted. -/
structure Axis (n m : Nat) (limit : Real64) : Prop where
  finite : limit.isFinite = true
  least : 1 ≤ limit.number
  inside : limit.number ≤ n
  short : n ≤ 2 ^ 14
  positive : 0 < m
  countable : (Real64.ofInt m).isFinite = true

/-- The middle of a result pixel lies on the axis. If the pixel is wider than those of the source,
all of it does. -/
structure Place.OnAxis (p : Place) (n : Nat) : Prop where
  centre : p.centre.isFinite = true
  widening : p.widening.isFinite = true
  nonempty : 0 < n
  short : n ≤ 2 ^ 14
  nonneg : 0 ≤ p.centre.number
  inside : p.centre.number ≤ n + 1 / 2 ^ 35
  wide : 1 ≤ p.widening.number
  narrow : p.widening.number ≤ 2 ^ 15
  whole : p.widening.number = 1 ∨ p.widening.number / 2 - 1 / 2 ^ 35 ≤ p.centre.number ∧
    p.centre.number ≤ n - p.widening.number / 2 + 1 / 2 ^ 35

namespace Axis

variable {n m : Nat} {limit : Real64} (axis : Axis n m limit)

include axis

theorem one_le_number : 1 ≤ (Real64.ofInt m).number := by
  have one := (Real64.number_ofInt_mono axis.positive axis.countable).2
  rwa [Real64.number_ofInt (by decide), Nat.cast_succ, Int.cast_add, Int.cast_one, Nat.cast_zero,
    Int.cast_zero, zero_add] at one

theorem number_mul_tiny : (Real64.ofInt m).number * 2 ^ (-1075 : ℤ) ≤ 1 / 2 ^ 51 := by
  have below := (le_abs_self _).trans_lt ((lt_add_of_pos_right _ (by norm_num)).trans
    (Real64.abs_number_lt axis.countable))
  calc (Real64.ofInt m).number * 2 ^ (-1075 : ℤ) ≤ 2 ^ (1024 : ℤ) * 2 ^ (-1075 : ℤ) := by
        gcongr
        exact (below.trans Real64.overflow_lt_two_pow).le
    _ = 1 / 2 ^ 51 := by
        rw [← zpow_add₀ two_ne_zero]
        norm_num

/-- A result pixel before the last one, with half a pixel added. -/
theorem middle_bounds {i : Nat} (inside : i < m) :
    (Real64.ofInt i + Real64.half).isFinite = true ∧
      0 ≤ (Real64.ofInt i + Real64.half).number ∧
      (Real64.ofInt i + Real64.half).number ≤ (Real64.ofInt m).number * (1 + 1 / 2 ^ 51) := by
  obtain ⟨counted, le⟩ := Real64.number_ofInt_mono inside.le axis.countable
  obtain ⟨-, nonneg⟩ := Real64.number_ofInt_mono (Nat.zero_le i) counted
  have start : (Real64.ofInt (0 : Nat)).number = 0 := Real64.number_ofInt (n := 0) (by decide)
  rw [start] at nonneg
  have sum : (Real64.ofInt i).number + 1 / 2 ≤ (Real64.ofInt m).number * (1 + 1 / 2 ^ 53) := by
    by_cases short : m < 2 ^ 53
    · have last : (i : ℚ) + 1 ≤ m := by exact_mod_cast inside
      rw [Real64.number_ofInt (by omega), Real64.number_ofInt (by omega)]
      push_cast
      linarith
    · have large := (Real64.number_ofInt_mono (a := 2 ^ 53 - 1) (by omega) axis.countable).2
      rw [Real64.number_ofInt (by decide)] at large
      push_cast at large
      linarith
  have below : |(Real64.ofInt i).number + Real64.half.number| < Format.binary64.overflow := by
    rw [Real64.number_half, abs_of_nonneg (by linarith), ← abs_of_nonneg nonneg]
    exact Real64.abs_number_lt counted
  have signed := signedRounded_add (f := .binary64) (by decide) (by decide) counted
    Real64.within_half.finite below
  rw [Real64.number_half] at signed
  have near := (abs_le.mp (Real64.near_of_signedRounded signed)).2
  rw [abs_of_nonneg (by linarith)] at near
  have tiny : (2 : ℚ) ^ (-1075 : ℤ) ≤ 2 ^ (-53 : ℤ) := zpow_le_zpow_right₀ one_le_two (by decide)
  have power : (2 : ℚ) ^ (-53 : ℤ) = 1 / 2 ^ 53 := by norm_num
  rw [power] at tiny
  refine ⟨signed.isFinite, signed.number_nonneg (by linarith), ?_⟩
  linarith [axis.one_le_number]

theorem scale_near : (limit / Real64.ofInt m).isFinite = true ∧
    0 ≤ (limit / Real64.ofInt m).number ∧
    |(limit / Real64.ofInt m).number - limit.number / (Real64.ofInt m).number| ≤
      limit.number / (Real64.ofInt m).number / 2 ^ 53 + 2 ^ (-1075 : ℤ) := by
  have positive : 0 < (Real64.ofInt m).number := by linarith [axis.one_le_number]
  have nonneg : 0 ≤ limit.number / (Real64.ofInt m).number :=
    div_nonneg (by linarith [axis.least]) positive.le
  have size : limit.number / (Real64.ofInt m).number ≤ 2 ^ 14 := by
    rw [div_le_iff₀ positive]
    have short : (n : ℚ) ≤ 2 ^ 14 := by exact_mod_cast axis.short
    linarith [axis.inside, axis.one_le_number]
  have signed := signedRounded_div (f := .binary64) (by decide) (by decide) axis.finite
    axis.countable positive.ne' (by
      rw [abs_of_nonneg nonneg]
      exact size.trans_lt (Real64.two_pow_lt_overflow (by decide)))
  have near := Real64.near_of_signedRounded signed
  rw [abs_of_nonneg nonneg] at near
  exact ⟨signed.isFinite, signed.number_nonneg nonneg, near⟩

theorem mul_scale_le : (Real64.ofInt m).number * (limit / Real64.ofInt m).number ≤
    limit.number + 1 / 2 ^ 38 := by
  have positive : 0 < (Real64.ofInt m).number := by linarith [axis.one_le_number]
  have le := (abs_le.mp axis.scale_near.2.2).2
  have exact := mul_div_cancel₀ limit.number positive.ne'
  have short : (n : ℚ) ≤ 2 ^ 14 := by exact_mod_cast axis.short
  calc (Real64.ofInt m).number * (limit / Real64.ofInt m).number
      ≤ (Real64.ofInt m).number * (limit.number / (Real64.ofInt m).number +
          (limit.number / (Real64.ofInt m).number / 2 ^ 53 + 2 ^ (-1075 : ℤ))) := by
        gcongr
        linarith
    _ = limit.number + limit.number / 2 ^ 53 +
          (Real64.ofInt m).number * 2 ^ (-1075 : ℤ) := by
        rw [mul_add, mul_add, exact, ← mul_div_assoc, exact, ← add_assoc]
    _ ≤ limit.number + 1 / 2 ^ 38 := by linarith [axis.number_mul_tiny, axis.inside]

/-- The middle as a product of a half-integer and the scale. -/
theorem centre_near {i : Nat} (inside : i < m) :
    Real64.Within (place m limit i).centre
      ((Real64.ofInt i + Real64.half).number * (limit / Real64.ofInt m).number) (1 / 2 ^ 38) ∧
      0 ≤ (place m limit i).centre.number ∧
      (Real64.ofInt i + Real64.half).number * (limit / Real64.ofInt m).number ≤
        limit.number + 1 / 2 ^ 36 := by
  obtain ⟨finite, nonneg, le⟩ := axis.middle_bounds inside
  obtain ⟨scaleFinite, scaleNonneg, -⟩ := axis.scale_near
  have short : (n : ℚ) ≤ 2 ^ 14 := by exact_mod_cast axis.short
  have bound : (Real64.ofInt i + Real64.half).number * (limit / Real64.ofInt m).number ≤
      limit.number + 1 / 2 ^ 36 := by
    calc (Real64.ofInt i + Real64.half).number * (limit / Real64.ofInt m).number
        ≤ (Real64.ofInt m).number * (1 + 1 / 2 ^ 51) * (limit / Real64.ofInt m).number := by
          gcongr
      _ = (1 + 1 / 2 ^ 51) * ((Real64.ofInt m).number * (limit / Real64.ofInt m).number) := by ring
      _ ≤ (1 + 1 / 2 ^ 51) * (limit.number + 1 / 2 ^ 38) := by
          gcongr
          exact axis.mul_scale_le
      _ ≤ limit.number + 1 / 2 ^ 36 := by linarith [axis.inside]
  have small : |(Real64.ofInt i + Real64.half).number * (limit / Real64.ofInt m).number| * 2 ^ 38 <
      2 ^ 54 := by
    rw [abs_of_nonneg (mul_nonneg nonneg scaleNonneg)]
    linarith [axis.inside]
  have signed := signedRounded_mul (f := .binary64) (by decide) (by decide) finite scaleFinite
    (Real64.lt_overflow_of_lt small)
  exact ⟨Real64.within_of_signedRounded signed (by decide) small,
    signed.number_nonneg (mul_nonneg nonneg scaleNonneg), bound⟩

/-- Where pixels are lost, the half-integers and the count of pixels are exact. -/
theorem exact_of_wide (wide : 1 ≤ (limit / Real64.ofInt m).number) :
    (Real64.ofInt m).number = m ∧
      ∀ i < m, (Real64.ofInt i + Real64.half).number = i + 1 / 2 := by
  have short : (n : ℚ) ≤ 2 ^ 14 := by exact_mod_cast axis.short
  have few : (Real64.ofInt m).number ≤ 2 ^ 15 := by
    have scaled := axis.mul_scale_le
    nlinarith [axis.inside, axis.one_le_number]
  have small : m < 2 ^ 16 := by
    by_contra large
    have le := (Real64.number_ofInt_mono (not_lt.mp large) axis.countable).2
    rw [Real64.number_ofInt (by decide)] at le
    push_cast at le
    linarith
  refine ⟨Real64.number_ofInt (by omega), fun i inside => ?_⟩
  have counted : (Real64.ofInt i).number = i := Real64.number_ofInt (by omega)
  have last : (i : ℚ) < 2 ^ 16 := by exact_mod_cast inside.trans small
  have sum : |(Real64.ofInt i).number + Real64.half.number| = (2 * i + 1 : Nat) * 2 ^ (-1 : ℤ) := by
    rw [counted, Real64.number_half, abs_of_nonneg (by positivity)]
    push_cast
    rw [zpow_neg_one]
    ring
  have signed := signedRounded_add (f := .binary64) (by decide) (by decide)
    (Real64.number_ofInt_mono inside.le axis.countable).1 Real64.within_half.finite (by
      refine (Real64.lt_overflow_of_lt (k := 0) ?_)
      rw [sum, zpow_neg_one]
      push_cast
      linarith)
  have exact := signed.exact sum (by
    have hidden : 2 * Format.binary64.hidden = 2 ^ 53 := by decide
    omega) (by decide)
  rwa [counted, Real64.number_half] at exact

theorem onAxis {i : Nat} (inside : i < m) : (place m limit i).OnAxis n := by
  obtain ⟨near, nonneg, le⟩ := axis.centre_near inside
  obtain ⟨scaleFinite, -, -⟩ := axis.scale_near
  obtain ⟨low, high⟩ := abs_le.mp near.near
  have short : (n : ℚ) ≤ 2 ^ 14 := by exact_mod_cast axis.short
  have within : (place m limit i).centre.number ≤ n + 1 / 2 ^ 35 := by linarith [axis.inside]
  have nonempty : 0 < n := by
    have cast : (0 : ℚ) < n := by linarith [axis.least, axis.inside]
    exact_mod_cast cast
  have ordered := lt_iff (by decide) (isNaN_of_isFinite scaleFinite)
    (isNaN_of_isFinite (x := (1 : Real64)) rfl)
  rw [Real64.number_one] at ordered
  by_cases lost : Binary.lt (limit / Real64.ofInt m) 1 = true
  · have width : (place m limit i).widening = 1 := if_pos lost
    refine ⟨near.finite, width ▸ rfl, nonempty, axis.short, nonneg, within, ?_, ?_, .inl ?_⟩ <;>
      rw [width, Real64.number_one]
    norm_num
  · have width : (place m limit i).widening = limit / Real64.ofInt m := if_neg lost
    have wide : 1 ≤ (limit / Real64.ofInt m).number := not_lt.mp (lost ∘ ordered.mpr)
    obtain ⟨count, middle⟩ := axis.exact_of_wide wide
    have scaled := axis.mul_scale_le
    rw [middle i inside] at low high
    have first : (0 : ℚ) ≤ i := i.cast_nonneg
    have last : (i : ℚ) + 1 ≤ m := by exact_mod_cast inside
    rw [count] at scaled
    refine ⟨near.finite, width ▸ scaleFinite, nonempty, axis.short, nonneg, within, ?_, ?_, .inr ?_⟩
      <;> rw [width]
    · exact wide
    · nlinarith [axis.inside]
    · constructor
      · nlinarith
      · nlinarith [axis.inside]

end Axis

/-! ## Taps around the middle -/

theorem toNat_truncated {x : Real64} (finite : x.isFinite = true) :
    (truncated x).toNat = ⌊x.number⌋₊ := by
  rcases le_or_gt 0 x.number with nonneg | negative
  · rw [truncated_of_nonneg finite nonneg, Int.floor_toNat]
  · have near := (abs_le.mp (truncated_near_of_nonpos finite negative.le)).2
    have below : (truncated x : ℚ) < (1 : Int) := by
      push_cast
      linarith
    rw [Nat.floor_of_nonpos negative.le]
    have := Int.cast_lt.mp below
    omega

theorem Place.past_le (p : Place) (support n : Nat) : p.past support n ≤ n := by
  unfold Place.past
  omega

namespace Place.OnAxis

variable {p : Place} {n : Nat} (placed : p.OnAxis n)

include placed

theorem edges {support : Nat} (few : support ≤ 3) :
    Real64.Within (p.centre - Real64.ofInt support * p.widening + Real64.half)
        (p.centre.number - support * p.widening.number + 1 / 2) (1 / 2 ^ 34) ∧
      Real64.Within (p.centre + Real64.ofInt support * p.widening + Real64.half)
        (p.centre.number + support * p.widening.number + 1 / 2) (1 / 2 ^ 34) := by
  have short : (n : ℚ) ≤ 2 ^ 14 := by exact_mod_cast placed.short
  have length : (support : ℚ) ≤ 3 := by exact_mod_cast few
  have count := Real64.within_ofInt (n := support) (by omega)
  rw [Int.cast_natCast] at count
  have reachNonneg : 0 ≤ support * p.widening.number :=
    mul_nonneg support.cast_nonneg (by linarith [placed.wide])
  have reachLe : support * p.widening.number ≤ 3 * 2 ^ 15 :=
    mul_le_mul length placed.narrow (by linarith [placed.wide]) (by norm_num)
  have reach := count.mul (Real64.within_self placed.widening) (k := 36) (by decide) (by
    rw [Nat.abs_cast, abs_of_nonneg (by linarith [placed.wide]), add_zero, add_zero]
    linarith)
  rw [mul_zero, mul_zero, zero_add, zero_add] at reach
  have centre := Real64.within_self placed.centre
  have inside := placed.inside
  have nonneg := placed.nonneg
  constructor
  · have size : |p.centre.number - support * p.widening.number| ≤ 2 ^ 17 := by
      rw [abs_le]
      constructor <;> linarith
    have left := centre.sub reach (k := 36) (by decide) (by linarith)
    exact (left.add_half (k := 36) (by decide) (by linarith)).mono (by norm_num)
  · have size : |p.centre.number + support * p.widening.number| ≤ 2 ^ 17 := by
      rw [abs_le]
      constructor <;> linarith
    have right := centre.add reach (k := 36) (by decide) (by linarith)
    exact (right.add_half (k := 36) (by decide) (by linarith)).mono (by norm_num)

theorem past_eq {support : Nat} (few : support ≤ 3) : p.past support n =
    min n ⌊(p.centre + Real64.ofInt support * p.widening + Real64.half).number⌋₊ := by
  rw [← toNat_truncated (placed.edges few).2.finite]
  unfold Place.past
  omega

/-- Source pixels well within the reach of the kernel are among the taps. -/
theorem mem_taps {support j : Nat} (few : support ≤ 3) (inside : j < n)
    (near : |(j : ℚ) + 1 / 2 - p.centre.number| ≤ support * p.widening.number - 1 / 2 ^ 33) :
    p.first support ≤ j ∧ j < p.past support n := by
  obtain ⟨left, right⟩ := placed.edges few
  obtain ⟨low, high⟩ := abs_le.mp near
  constructor
  · have leftLe := (abs_le.mp left.near).2
    rw [Place.first, toNat_truncated left.finite]
    refine Nat.lt_succ_iff.mp ((Nat.floor_lt' (Nat.succ_ne_zero j)).mpr ?_)
    push_cast
    linarith
  · have rightLe := (abs_le.mp right.near).1
    rw [placed.past_eq few, lt_min_iff]
    refine ⟨inside, Nat.succ_le_iff.mp (Nat.le_floor ?_)⟩
    push_cast
    linarith

theorem count_le {support : Nat} (few : support ≤ 3) :
    ((p.past support n - p.first support : Nat) : ℚ) ≤
      2 * (support * p.widening.number) + 1 + 1 / 2 ^ 33 := by
  obtain ⟨left, right⟩ := placed.edges few
  have reachNonneg : 0 ≤ support * p.widening.number :=
    mul_nonneg support.cast_nonneg (by linarith [placed.wide])
  have leftLe := (abs_le.mp left.near).1
  have rightLe := (abs_le.mp right.near).2
  have rightNonneg : 0 ≤ (p.centre + Real64.ofInt support * p.widening + Real64.half).number := by
    linarith [placed.nonneg, (abs_le.mp right.near).1]
  have past : (p.past support n : ℚ) ≤
      (p.centre + Real64.ofInt support * p.widening + Real64.half).number := by
    rw [placed.past_eq few]
    exact (Nat.cast_le.mpr (min_le_right _ _)).trans (Nat.floor_le rightNonneg)
  have first : (p.centre - Real64.ofInt support * p.widening + Real64.half).number <
      p.first support + 1 := by
    rw [Place.first, toNat_truncated left.finite]
    exact Nat.lt_floor_add_one _
  rcases le_total (p.first support) (p.past support n) with le | ge
  · rw [Nat.cast_sub le]
    linarith
  · rw [Nat.sub_eq_zero_of_le ge, Nat.cast_zero]
    linarith

/-- The computed distance from the centre, in widths. -/
theorem offset_within {j : Nat} (inside : j < n) :
    Real64.Within (p.offset j) (((j : ℚ) + 1 / 2 - p.centre.number) / p.widening.number)
      (1 / 2 ^ 35) := by
  have short : (n : ℚ) ≤ 2 ^ 14 := by exact_mod_cast placed.short
  have last : (j : ℚ) < n := by exact_mod_cast inside
  have first : (0 : ℚ) ≤ j := j.cast_nonneg
  have wide := placed.wide
  have positive : 0 < p.widening.number := by linarith
  have small := placed.short
  have index := Real64.within_ofInt (n := j) (by omega)
  rw [Int.cast_natCast] at index
  have size : |(j : ℚ) - p.centre.number| ≤ 2 ^ 14 + 1 := by
    rw [abs_le]
    constructor <;> linarith [placed.nonneg, placed.inside]
  have left := index.sub (Real64.within_self placed.centre) (k := 38) (by decide) (by linarith)
  have sizeHalf : |(j : ℚ) - p.centre.number + 1 / 2| ≤ 2 ^ 14 + 2 := by
    refine (abs_add_le _ _).trans ?_
    rw [abs_of_pos (by norm_num : (0 : ℚ) < 1 / 2)]
    linarith
  have distance := (left.add_half (k := 38) (by decide) (by linarith)).mono
    (show _ ≤ 1 / 2 ^ 37 by norm_num)
  have narrowLe : |1 / p.widening.number| ≤ 1 := by
    rw [abs_of_pos (by positivity), div_le_one positive]
    exact wide
  have narrowing := Real64.within_div (x := 1) rfl placed.widening positive.ne' (k := 53)
    (by decide) (by
      rw [Real64.number_one]
      linarith)
  rw [Real64.number_one] at narrowing
  have product := distance.mul narrowing (k := 38) (by decide) (by
    calc _ ≤ ((2 : ℚ) ^ 14 + 2 + 1 / 2 ^ 37) * (1 + 1 / 2 ^ 53) * 2 ^ 38 := by gcongr
      _ < 2 ^ 54 := by norm_num)
  have value : ((j : ℚ) - p.centre.number + 1 / 2) * (1 / p.widening.number) =
      ((j : ℚ) + 1 / 2 - p.centre.number) / p.widening.number := by
    rw [mul_one_div, sub_add_eq_add_sub]
  rw [value] at product
  refine product.mono ?_
  calc _ ≤ ((2 : ℚ) ^ 14 + 2 + 1 / 2 ^ 37) * (1 / 2 ^ 53) + 1 * (1 / 2 ^ 37) + 1 / 2 ^ 38 := by
        gcongr
    _ ≤ 1 / 2 ^ 35 := by norm_num

/-- The middle lies in a source pixel, or next to the last one. -/
theorem exists_around_middle :
    ∃ a < n, |(a : ℚ) + 1 / 2 - p.centre.number| ≤ 1 / 2 + 1 / 2 ^ 34 := by
  have nonempty := placed.nonempty
  have floor := Nat.floor_le placed.nonneg
  have above := Nat.lt_floor_add_one p.centre.number
  refine ⟨min ⌊p.centre.number⌋₊ (n - 1), by omega, ?_⟩
  rw [abs_le]
  rcases le_total ⌊p.centre.number⌋₊ (n - 1) with le | ge
  · rw [min_eq_left le]
    constructor <;> linarith
  · rw [min_eq_right ge]
    have floorGe : ((n - 1 : Nat) : ℚ) ≤ ⌊p.centre.number⌋₊ := by exact_mod_cast ge
    have count : ((n - 1 : Nat) : ℚ) = n - 1 := by rw [Nat.cast_pred nonempty]
    rw [count] at floorGe ⊢
    constructor <;> linarith [placed.inside]

/-- As many source pixels as fit into the result pixel lie next to each other around its middle. -/
theorem exists_covered : ∃ a : Nat, a + ⌊p.widening.number⌋₊ ≤ n ∧
    ∀ j, a ≤ j → j < a + ⌊p.widening.number⌋₊ →
      |(j : ℚ) + 1 / 2 - p.centre.number| ≤ p.widening.number / 2 + 1 / 2 ^ 34 := by
  rcases placed.whole with plain | ⟨low, high⟩
  · obtain ⟨a, inside, near⟩ := placed.exists_around_middle
    rw [plain, Nat.floor_one]
    refine ⟨a, inside, fun j ge lt => ?_⟩
    obtain rfl : j = a := by omega
    exact near
  -- The stretch begins with the first pixel whose middle is not before the edge.
  · have count := Nat.floor_le (by linarith [placed.wide] : 0 ≤ p.widening.number)
    have start := Nat.le_ceil (p.centre.number - p.widening.number / 2 - 1 / 2)
    have close : (⌈p.centre.number - p.widening.number / 2 - 1 / 2⌉₊ : ℚ) <
        p.centre.number - p.widening.number / 2 + 1 / 2 := by
      rcases le_total 0 (p.centre.number - p.widening.number / 2 - 1 / 2) with nonneg | nonpos
      · linarith [Nat.ceil_lt_add_one nonneg]
      · rw [Nat.ceil_eq_zero.mpr nonpos, Nat.cast_zero]
        linarith
    generalize ⌈p.centre.number - p.widening.number / 2 - 1 / 2⌉₊ = a at *
    refine ⟨a, ?_, fun j ge lt => ?_⟩
    · by_contra beyond
      have cast : (n : ℚ) + 1 ≤ a + ⌊p.widening.number⌋₊ := by exact_mod_cast not_le.mp beyond
      linarith
    · have below : (a : ℚ) ≤ j := by exact_mod_cast ge
      have above : (j : ℚ) + 1 ≤ a + ⌊p.widening.number⌋₊ := by exact_mod_cast lt
      rw [abs_le]
      constructor <;> linarith

end Place.OnAxis

end Resample

end RasterEdit
