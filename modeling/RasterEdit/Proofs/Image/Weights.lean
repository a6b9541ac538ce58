import Mathlib.Algebra.BigOperators.Fin
import Mathlib.Data.List.Induction
import RasterEdit.Image.Resample
import RasterEdit.Proofs.Binary.Within

/-!
# Weights in fixed point

The weights of a result pixel are divided by their sum and rounded to integers in units of
`2 ^ -22`. However many they are, up to `2 ^ 14`, the integers add up to one so closely that a
weighted sum of equal bytes is that byte.
-/

set_option autoImplicit false

namespace RasterEdit

namespace Binary

/-- Cutting off what is beyond the integer rounds a number down that is not negative. -/
theorem truncate?_of_nonneg {f : Format} {x : Binary f} (finite : x.isFinite = true)
    (nonneg : 0 ≤ x.number) : x.truncate? = some ⌊x.number⌋ := by
  obtain ⟨m, q, parts⟩ := exists_parts finite
  have value := (number_of_parts parts).1
  have mNonneg : 0 ≤ m := by
    have scale : (0 : ℚ) < 2 ^ q := by positivity
    rw [value] at nonneg
    exact_mod_cast nonneg_of_mul_nonneg_left nonneg scale
  rw [← floor?_eq finite]
  simp only [floor?, truncate?, parts, Option.map_some, Option.some.injEq]
  split
  · rfl
  · rw [Int.tdiv_eq_ediv_of_nonneg mNonneg, Int.shiftRight_eq_div_pow, Nat.one_shiftLeft]

end Binary

open Binary

namespace Resample

/-! ## Cutting down to an integer -/

theorem truncated_of_nonneg {x : Real64} (finite : x.isFinite = true) (nonneg : 0 ≤ x.number) :
    truncated x = ⌊x.number⌋ := by
  rw [truncated, truncate?_of_nonneg finite nonneg, Option.getD_some]

theorem truncated_neg (x : Real64) : truncated (-x) = -truncated x := by
  cases x with
  | nan => rfl
  | signed s rank h =>
    change truncated (signed (!s) rank h) = _
    by_cases below : rank < Format.binary64.top
    · by_cases whole : 0 ≤ Format.binary64.quantum rank
      · cases s <;> simp [truncated, truncate?, parts?, below, whole, Int.shiftLeft_eq]
      · cases s <;> simp [truncated, truncate?, parts?, below, whole]
    · cases s <;> simp [truncated, truncate?, parts?, below]

theorem truncated_near_of_nonneg {x : Real64} (finite : x.isFinite = true) (nonneg : 0 ≤ x.number) :
    |(truncated x : ℚ) - (x.number - 1 / 2)| ≤ 1 / 2 := by
  rw [truncated_of_nonneg finite nonneg, abs_le]
  constructor <;> linarith [Int.floor_le x.number, Int.lt_floor_add_one x.number]

theorem truncated_near_of_nonpos {x : Real64} (finite : x.isFinite = true) (nonpos : x.number ≤ 0) :
    |(truncated x : ℚ) - (x.number + 1 / 2)| ≤ 1 / 2 := by
  have opposite := truncated_near_of_nonneg ((isFinite_neg x).trans finite)
    (by rw [number_neg]; linarith)
  rw [truncated_neg, number_neg, Int.cast_neg] at opposite
  rw [← abs_neg]
  convert opposite using 2
  ring

/-- Half a unit is added away from zero and what is beyond the integer is cut off. -/
theorem fixedWeight_near {x : Real64} (finite : x.isFinite = true) (small : |x.number| ≤ 2 ^ 11) :
    |(fixedWeight x : ℚ) - 2 ^ 22 * x.number| ≤ 1 / 2 + 1 / 2 ^ 19 := by
  have unit : Real64.Within (Real64.ofInt (1 <<< 22 : Nat)) (2 ^ 22) 0 := by
    have exact := Real64.within_ofInt (n := (1 <<< 22 : Nat)) (by decide)
    norm_num at exact ⊢
    exact exact
  have power : |(2 : ℚ) ^ 22| = 2 ^ 22 := by norm_num
  have scaled := (Real64.within_self finite).mul unit (k := 20) (by decide) (by
    rw [power]
    linarith)
  rw [mul_comm x.number, mul_zero, mul_zero, zero_add, zero_add] at scaled
  have size : |2 ^ 22 * x.number| ≤ 2 ^ 33 := by
    rw [abs_mul, power]
    linarith
  have bound : (|2 ^ 22 * x.number| + 1 / 2 + 1 / 2 ^ 20) * 2 ^ 20 < 2 ^ 54 := by
    calc _ ≤ ((2 : ℚ) ^ 33 + 1 / 2 + 1 / 2 ^ 20) * 2 ^ 20 := by gcongr
      _ < 2 ^ 54 := by norm_num
  have ordered := lt_iff (by decide) (isNaN_of_isFinite finite)
    (isNaN_of_isFinite (x := (0 : Real64)) rfl)
  rw [Real64.number_zero] at ordered
  by_cases negative : Binary.lt x 0 = true
  · have below : x.number < 0 := ordered.mp negative
    have shifted := scaled.sub_half (by decide) bound
    obtain ⟨low, high⟩ := abs_le.mp shifted.near
    have cut := truncated_near_of_nonpos shifted.finite (by linarith)
    rw [fixedWeight, if_pos negative]
    obtain ⟨cutLow, cutHigh⟩ := abs_le.mp cut
    rw [abs_le]
    constructor <;> linarith
  · have above : 0 ≤ x.number := not_lt.mp (negative ∘ ordered.mpr)
    have shifted := scaled.add_half (by decide) bound
    obtain ⟨low, high⟩ := abs_le.mp shifted.near
    have cut := truncated_near_of_nonneg shifted.finite (by linarith)
    rw [fixedWeight, if_neg negative]
    obtain ⟨cutLow, cutHigh⟩ := abs_le.mp cut
    rw [abs_le]
    constructor <;> linarith

/-! ## Sums -/

/-- The weights of a result pixel in fixed point, as they follow from the values of the kernel. -/
def fixedWeights (raw : List Real64) : List Int :=
  raw.map fun w => fixedWeight
    (if (raw.foldl (· + ·) 0).isZero then w else w / raw.foldl (· + ·) 0)

/-- Values of a kernel: finite numbers of moderate size. -/
def Moderate (raw : List Real64) : Prop := ∀ w ∈ raw, w.isFinite = true ∧ |w.number| ≤ 2

theorem abs_sum_le {raw : List Real64} (moderate : Moderate raw) :
    |(raw.map Binary.number).sum| ≤ 2 * raw.length := by
  induction raw with
  | nil => simp
  | cons w raw ih =>
    obtain ⟨⟨-, small⟩, rest⟩ := List.forall_mem_cons.mp moderate
    rw [List.map_cons, List.sum_cons, List.length_cons]
    push_cast
    linarith [abs_add_le w.number (raw.map Binary.number).sum, ih rest]

/-- Each addition is rounded by at most `1 / 2 ^ 38`. -/
theorem foldl_add_within {raw : List Real64} (moderate : Moderate raw)
    (few : raw.length ≤ 2 ^ 14) :
    Real64.Within (raw.foldl (· + ·) 0) (raw.map Binary.number).sum (raw.length / 2 ^ 38) := by
  induction raw using List.reverseRecOn with
  | nil =>
    have zero := Real64.within_ofInt (n := 0) (by decide)
    simp only [List.foldl_nil, List.map_nil, List.sum_nil, List.length_nil, Nat.cast_zero, zero_div]
    exact_mod_cast zero
  | append_singleton raw w ih =>
    have rest : Moderate raw := fun x member => moderate x (List.mem_append_left _ member)
    obtain ⟨finite, small⟩ := moderate w (by simp)
    rw [List.length_append, List.length_singleton] at few
    have sum := (ih rest (by omega)).add (Real64.within_self finite) (k := 38) (by decide) (by
      have count : (raw.length : ℚ) + 1 ≤ 2 ^ 14 := by exact_mod_cast few
      have size := abs_sum_le rest
      have total := abs_add_le (raw.map Binary.number).sum w.number
      have share : (raw.length : ℚ) / 2 ^ 38 ≤ 1 := by
        rw [div_le_one (by norm_num)]
        linarith
      nlinarith)
    rw [List.foldl_append, List.map_append, List.sum_append, List.length_append]
    simp only [List.foldl_cons, List.foldl_nil, List.map_cons, List.map_nil, List.sum_cons,
      List.sum_nil, add_zero, List.length_singleton, Nat.cast_add, Nat.cast_one]
    exact sum.mono (by rw [add_zero, ← add_div])

/-- A weight divided by a sum that is not tiny, in fixed point. -/
theorem fixedWeight_div_near {w total : Real64} (left : w.isFinite = true)
    (right : total.isFinite = true) (small : |w.number| ≤ 2) (large : 1 / 2 ^ 9 ≤ total.number) :
    |(fixedWeight (w / total) : ℚ) - 2 ^ 22 * (w.number / total.number)| ≤ 1 / 2 + 1 / 2 ^ 18 := by
  have positive : 0 < total.number := lt_of_lt_of_le (by norm_num) large
  have size : |w.number / total.number| ≤ 2 ^ 10 := by
    rw [abs_div, abs_of_pos positive, div_le_iff₀ positive]
    linarith
  have quotient := Real64.within_div left right positive.ne' (k := 43) (by decide) (by linarith)
  have fixed := fixedWeight_near quotient.finite (quotient.abs_le.trans (by linarith))
  have moved : 2 ^ 22 * |(w / total).number - w.number / total.number| ≤ 2 ^ 22 * (1 / 2 ^ 43) :=
    mul_le_mul_of_nonneg_left quotient.near (by norm_num)
  calc |(fixedWeight (w / total) : ℚ) - 2 ^ 22 * (w.number / total.number)|
      ≤ |(fixedWeight (w / total) : ℚ) - 2 ^ 22 * (w / total).number| +
        |2 ^ 22 * (w / total).number - 2 ^ 22 * (w.number / total.number)| := abs_sub_le ..
    _ ≤ 1 / 2 + 1 / 2 ^ 19 + 2 ^ 22 * (1 / 2 ^ 43) := by
        refine add_le_add fixed ?_
        rw [← mul_sub, abs_mul, abs_of_pos (by norm_num : (0 : ℚ) < 2 ^ 22)]
        exact moved
    _ ≤ 1 / 2 + 1 / 2 ^ 18 := by norm_num

theorem sum_fixed_near {total : Real64} (finite : total.isFinite = true)
    (large : 1 / 2 ^ 9 ≤ total.number) {raw : List Real64} (moderate : Moderate raw) :
    |(((raw.map fun w => fixedWeight (w / total)).sum : Int) : ℚ) -
      2 ^ 22 * ((raw.map Binary.number).sum / total.number)| ≤
        (raw.length : ℚ) * (1 / 2 + 1 / 2 ^ 18) := by
  induction raw with
  | nil => simp
  | cons w raw ih =>
    obtain ⟨⟨wFinite, small⟩, rest⟩ := List.forall_mem_cons.mp moderate
    have first := fixedWeight_div_near wFinite finite small large
    have others := ih rest
    rw [List.map_cons, List.map_cons, List.sum_cons, List.sum_cons, List.length_cons, Int.cast_add,
      Nat.cast_add, Nat.cast_one, add_div, mul_add, add_sub_add_comm, add_one_mul]
    exact (abs_add_le _ _).trans ((add_le_add first others).trans_eq (add_comm _ _))

/-- Fixed weights add up to one, up to half a unit each, if there are few of them for their sum. -/
theorem sum_fixedWeights_near {raw : List Real64} (moderate : Moderate raw)
    (few : raw.length ≤ 2 ^ 14) (large : 1 / 2 ^ 8 ≤ (raw.map Binary.number).sum)
    (enough : raw.length ≤ 2 ^ 16 * (raw.map Binary.number).sum) :
    |((fixedWeights raw).sum : ℚ) - 2 ^ 22| ≤ 8224 := by
  have count : (raw.length : ℚ) ≤ 2 ^ 14 := by exact_mod_cast few
  have sum := foldl_add_within moderate few
  unfold fixedWeights
  generalize raw.foldl (· + ·) 0 = total at *
  generalize ideal : (raw.map Binary.number).sum = exact at *
  obtain ⟨low, high⟩ := abs_le.mp sum.near
  have share : (raw.length : ℚ) / 2 ^ 38 ≤ 1 / 2 ^ 24 := by
    rw [div_le_iff₀ (by norm_num)]
    linarith
  have least : 1 / 2 ^ 9 ≤ total.number := by linarith
  have positive : 0 < total.number := lt_of_lt_of_le (by norm_num) least
  have nonzero : total.isZero = false := by
    rw [← Bool.not_eq_true, isZero_iff_number (by decide) sum.finite]
    exact positive.ne'
  have rounded := sum_fixed_near sum.finite least moderate
  simp only [nonzero, Bool.false_eq_true, ↓reduceIte]
  rw [ideal] at rounded
  have ratio : |exact / total.number - 1| ≤ 1 / 2 ^ 21 := by
    rw [div_sub_one positive.ne', abs_div, abs_of_pos positive, div_le_iff₀ positive, abs_sub_comm]
    refine sum.near.trans ?_
    rw [div_le_iff₀ (by norm_num)]
    linarith
  calc |(((raw.map fun w => fixedWeight (w / total)).sum : Int) : ℚ) - 2 ^ 22|
      ≤ |(((raw.map fun w => fixedWeight (w / total)).sum : Int) : ℚ) -
          2 ^ 22 * (exact / total.number)| + |2 ^ 22 * (exact / total.number) - 2 ^ 22| :=
        abs_sub_le ..
    _ ≤ raw.length * (1 / 2 + 1 / 2 ^ 18) + 2 ^ 22 * (1 / 2 ^ 21) := by
        refine add_le_add rounded ?_
        rw [← mul_sub_one, abs_mul, abs_of_pos (by norm_num : (0 : ℚ) < 2 ^ 22)]
        exact mul_le_mul_of_nonneg_left ratio (by norm_num)
    _ ≤ 8224 := by linarith

/-! ## Combining equal samples -/

theorem fold_add_mul (n : Nat) (w : (k : Nat) → k < n → Int) (v start : Int) :
    n.fold (fun k h sum => sum + v * w k h) start = start + v * ∑ k : Fin n, w k k.isLt := by
  induction n with
  | zero => simp
  | succ n ih =>
    rw [Nat.fold_succ, ih, Fin.sum_univ_castSucc, mul_add, add_assoc]
    rfl

/-- A weighted sum of equal bytes is that byte if the weights are close enough to one. -/
theorem combine_equal {sample : Nat → Nat} {t : Taps} {v : UInt8}
    (equal : ∀ k < t.weights.size, sample (t.first + k) = v.toNat)
    (near : |(t.weights.toList.sum : ℚ) - 2 ^ 22| ≤ 8224) : combine sample t = v := by
  have sum : ∑ k : Fin t.weights.size, t.weights[k] = t.weights.toList.sum := by
    rw [← List.sum_ofFn]
    congr 1
    exact List.ext_getElem (by simp) (by simp)
  have total : (t.weights.size.fold
      (fun k h (sum : Int) => sum + sample (t.first + k) * t.weights[k]) (1 <<< 21 : Nat)) =
        2 ^ 21 + v.toNat * t.weights.toList.sum := by
    have step : (fun k h (sum : Int) => sum + sample (t.first + k) * t.weights[k]) =
        fun (k : Nat) (h : k < t.weights.size) (sum : Int) => sum + v.toNat * t.weights[k] := by
      funext k h sum
      rw [equal k h]
    rw [step, fold_add_mul, ← sum]
    rfl
  have bounds : |t.weights.toList.sum - 2 ^ 22| ≤ 8224 := by exact_mod_cast near
  have byte := v.toNat_lt
  obtain ⟨low, high⟩ := abs_le.mp bounds
  have lowest := mul_le_mul_of_nonneg_left low (Int.natCast_nonneg v.toNat)
  have highest := mul_le_mul_of_nonneg_left high (Int.natCast_nonneg v.toNat)
  have middle : (2 ^ 21 + v.toNat * t.weights.toList.sum) >>> (22 : Nat) = (v.toNat : Int) := by
    rw [Int.shiftRight_eq_div_pow, Int.ediv_eq_iff_of_pos (by norm_num)]
    constructor <;> push_cast <;> linarith
  rw [combine, total, middle]
  simp only [Colour.clamp, Int.toNat_natCast]
  rw [min_eq_left (by omega)]
  exact UInt8.ofNat_toNat

end Resample

end RasterEdit
