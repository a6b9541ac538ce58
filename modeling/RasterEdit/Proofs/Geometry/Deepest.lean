import Mathlib.Order.Bounds.Basic
import RasterEdit.Proofs.Binary.Order
import RasterEdit.Proofs.Geometry.HalfAway

/-!
# The deepest reduction

The search for the deepest reduction halves a binary64 number until it falls below the wanted scale.
Without a maximum it ends only because the halved number does fall below every positive value, at
last by becoming zero. Where it ends is nevertheless settled by exact powers of two: as long as the
search goes on they are expressed exactly, and beyond them no positive value is left.
-/

set_option autoImplicit false

namespace RasterEdit

open Binary

/-! ## Positive values -/

namespace Real64

variable {v : Real64}

theorem exists_of_pos (positive : Binary.lt 0 v = true) :
    ∃ rank, ∃ h, 0 < rank ∧ v = .signed false rank h := by
  have origin : (0 : Real64) = .signed false 0 (Nat.zero_le _) := rfl
  rw [origin] at positive
  cases v with
  | nan => cases positive
  | signed s rank h =>
    simp only [Binary.lt, compare?, key, beq_iff_eq, Option.some.injEq, compare_lt_iff_lt]
      at positive
    cases s with
    | false => exact ⟨rank, h, Int.ofNat_lt.mp positive, rfl⟩
    | true =>
      simp only [Bool.false_eq_true, ↓reduceIte] at positive
      omega

theorem isNaN_of_pos (positive : Binary.lt 0 v = true) : v.isNaN = false := by
  obtain ⟨rank, h, -, rfl⟩ := exists_of_pos positive
  rfl

/-- The least positive value is a power of two. -/
theorem least_le_of_pos (positive : Binary.lt 0 v = true) : 1 / 2 ^ 1074 ≤ v.number := by
  obtain ⟨rank, h, above, rfl⟩ := exists_of_pos positive
  have least : Format.binary64.magnitude 1 = 1 / 2 ^ 1074 := by
    rw [Format.magnitude_of_lt (by decide)]
    have quantum : Format.binary64.leastQuantum = -1074 := rfl
    rw [quantum]
    norm_num
  rw [← least]
  exact Format.magnitude_mono (by decide) above

end Real64

/-! ## Comparisons with integers -/

namespace Number

theorem compareInt?_of_integer {m : Number} {k : Int} (integer : m.integer? = some k) (n : Int) :
    compareInt? n m = some (compare n k) := by
  cases m with
  | truth b => cases integer; rfl
  | whole j => cases integer; rfl
  | real x => cases integer

theorem compareInt?_of_pos {v : Real64} (positive : Binary.lt 0 v = true) :
    compareInt? 0 (.real v) = some .lt := by
  have above := Real64.least_le_of_pos positive
  obtain ⟨rank, h, -, rfl⟩ := Real64.exists_of_pos positive
  rcases h.lt_or_eq with below | rfl
  · have finite : (signed false rank h : Real64).isFinite = true := (isFinite_signed ..).mpr below
    have nonneg : 0 ≤ ⌊(signed false rank h : Real64).magnitude⌋ :=
      Int.floor_nonneg.mpr (magnitude_nonneg _)
    have notZero : (signed false rank h : Real64).toInt? ≠ some 0 := by
      intro zero
      have vanishes := (Real64.whole_of_toInt? zero).2.1
      change Format.binary64.magnitude rank = _ at vanishes
      change _ ≤ Format.binary64.magnitude rank at above
      rw [vanishes, Int.natAbs_zero, Nat.cast_zero] at above
      exact above.not_gt (by positivity)
    simp only [compareInt?, floor?_of_nonneg finite rfl, nonneg, ↓reduceIte]
    rw [if_neg]
    rintro ⟨floor, whole⟩
    rw [← floor] at whole
    exact notZero whole
  · rfl

theorem isNotPositive_of_pos {v : Real64} (positive : Binary.lt 0 v = true) :
    isNotPositive (.real v) = false := by
  rw [isNotPositive, compareInt?_of_pos positive]
  rfl

section Natural

variable {m : Number} {k : Nat} (integer : m.integer? = some (k : Int))

include integer

theorem isNegative_of_natural : m.isNegative = false := by
  rw [isNegative, compareInt?_of_integer integer, beq_eq_false_iff_ne, ne_eq, Option.some.injEq,
    compare_gt_iff_gt]
  omega

theorem intLt_natural (n : Nat) : intLt n m = true ↔ n < k := by
  rw [intLt, compareInt?_of_integer integer, beq_iff_eq, Option.some.injEq, compare_lt_iff_lt,
    Int.ofNat_lt]

end Natural

end Number

/-! ## Halved numbers -/

namespace Real64

theorem rounded_reciprocal (k : Nat) :
    Rounded (Real64.ofFraction 1 (1 <<< k : Nat)) (1 / 2 ^ k) := by
  have value : ((1 : Nat) : ℚ) / (2 ^ k : Nat) = 1 / 2 ^ k := by norm_num
  rw [Nat.one_shiftLeft, ← value]
  exact rounded_fraction (Nat.two_pow_pos k) (by decide)

/-- Half of a power of two that is expressed exactly is the next one, rounded if need be. -/
theorem half_reciprocal {k : Nat} (inRange : k ≤ 1074) :
    Real64.ofFraction 1 (1 <<< k : Nat) / Real64.ofInt 2 =
      Real64.ofFraction 1 (1 <<< (k + 1) : Nat) := by
  have power := rounded_reciprocal k
  have next := rounded_reciprocal (k + 1)
  have two : (Real64.ofInt 2).magnitude = 2 := magnitude_ofInt (by decide)
  have quotient : (Real64.ofFraction 1 (1 <<< k : Nat)).magnitude / (Real64.ofInt 2).magnitude =
      1 / 2 ^ (k + 1) := by
    rw [magnitude_reciprocal inRange, two, pow_succ]
    field_simp
  have half := rounded_div (by decide) (by decide) power.isFinite (y := Real64.ofInt 2) rfl
    power.isNegative rfl rfl (quotient ▸ next.below)
  rw [quotient] at half
  exact half.unique next

theorem magnitude_reciprocal_beyond {k : Nat} (beyond : 1074 < k) :
    (Real64.ofFraction 1 (1 <<< k : Nat)).magnitude = 0 := by
  have first : Real64.ofFraction 1 (1 <<< 1075 : Nat) = Binary.zero false := by decide +kernel
  have le := (rounded_reciprocal k).mono (rounded_reciprocal 1075)
    (one_div_pow_le_one_div_pow_of_le one_le_two beyond)
  rw [first] at le
  exact le_antisymm (le.trans_eq Format.binary64.magnitude_zero) (magnitude_nonneg _)

/-- Comparing with a rounded power of two is comparing with its exact value: the only powers that
are not expressed exactly are below every positive value. -/
theorem le_reciprocal_iff {v : Real64} (positive : Binary.lt 0 v = true) (k : Nat) :
    Binary.le v (Real64.ofFraction 1 (1 <<< k : Nat)) = true ↔ v.number ≤ 1 / 2 ^ k := by
  have power := rounded_reciprocal k
  rw [le_iff (by decide) (isNaN_of_pos positive) (isNaN_of_isFinite power.isFinite),
    power.number_eq]
  rcases le_or_gt k 1074 with inRange | beyond
  · rw [magnitude_reciprocal inRange, one_div]
  · have least := least_le_of_pos positive
    have unit : (0 : ℚ) < 1 / 2 ^ 1074 := by positivity
    have less : (1 : ℚ) / 2 ^ k < 1 / 2 ^ 1074 :=
      one_div_pow_lt_one_div_pow_of_lt one_lt_two beyond
    rw [magnitude_reciprocal_beyond beyond]
    exact iff_of_false (unit.trans_le least).not_ge (less.trans_le least).not_ge

end Real64

/-! ## The search -/

namespace Reduction

/-- The search for the deepest reduction, with as many turns as it takes: `next` is the scale after
one more halving than the `count` so far. -/
inductive Search (scale : Number) (maximum : Option Number) : Real64 → Nat → Nat → Prop where
  | ends {next : Real64} {count : Nat}
      (refused : (atMost scale next && belowMaximum count maximum) = false) :
      Search scale maximum next count count
  | turns {next : Real64} {count last : Nat}
      (admitted : (atMost scale next && belowMaximum count maximum) = true)
      (rest : Search scale maximum (next / Real64.ofInt 2) (count + 1) last) :
      Search scale maximum next count last

/-- A number of halvings that keeps at least the wanted scale and respects the maximum. -/
def Keeps (v : Real64) (maximum : Option Number) (n : Nat) : Prop :=
  v.number ≤ 1 / 2 ^ n ∧ ∀ m ∈ maximum, ∀ k : Nat, m.integer? = some (k : Int) → n ≤ k

theorem Keeps.of_le {v : Real64} {maximum : Option Number} {m n : Nat}
    (keeps : Keeps v maximum n) (le : m ≤ n) : Keeps v maximum m :=
  ⟨keeps.1.trans (one_div_pow_le_one_div_pow_of_le one_le_two le),
    fun bound listed k integer => le.trans (keeps.2 bound listed k integer)⟩

variable {scale : Number} {maximum : Option Number} {next : Real64} {count last : Nat}

theorem Search.le (search : Search scale maximum next count last) : count ≤ last := by
  induction search with
  | ends refused => exact le_rfl
  | turns admitted rest ih => exact (Nat.le_succ _).trans ih

/-- Fuel that reaches the end of the search makes no difference. -/
theorem countHalvings_of_search (search : Search scale maximum next count last) {fuel : Nat}
    (enough : last ≤ count + fuel) : countHalvings scale maximum fuel next count = last := by
  induction search generalizing fuel with
  | ends refused =>
    cases fuel with
    | zero => rfl
    | succ fuel => rw [countHalvings, refused, if_neg Bool.false_ne_true]
  | turns admitted rest ih =>
    have further := rest.le
    cases fuel with
    | zero => omega
    | succ fuel =>
      rw [countHalvings, admitted, if_pos rfl]
      exact ih (by omega)

section Positive

variable {v : Real64} (positive : Binary.lt 0 v = true)

include positive

/-- No more halvings than binary64 can express keep a positive scale. -/
theorem Keeps.le (keeps : Keeps v maximum count) : count ≤ 1074 := by
  have between := (Real64.least_le_of_pos positive).trans keeps.1
  exact (one_div_pow_strictAnti one_lt_two).le_iff_ge.mp between

variable (natural : ∀ m ∈ maximum, ∃ k : Nat, m.integer? = some (k : Int))

include natural

/-- A turn is taken exactly if one more halving keeps the scale. -/
theorem turn_iff (count : Nat) :
    (atMost (.real v) (Real64.ofFraction 1 (1 <<< (count + 1) : Nat)) &&
      belowMaximum count maximum) = true ↔ Keeps v maximum (count + 1) := by
  rw [Bool.and_eq_true]
  refine and_congr (Real64.le_reciprocal_iff positive _) ?_
  cases maximum with
  | none => simp [belowMaximum]
  | some m =>
    obtain ⟨k, integer⟩ := natural m rfl
    rw [belowMaximum, Number.intLt_natural integer]
    constructor
    · intro below bound listed j given
      obtain rfl : m = bound := Option.some.inj listed
      have same : k = j := Int.natCast_inj.mp (Option.some.inj (integer.symm.trans given))
      exact same ▸ below
    · exact fun bounded => bounded m rfl k integer

/-- What the halvings so far have kept carries over to the end, and there one more is too many. -/
theorem Search.isGreatest (search : Search (.real v) maximum next count last)
    (power : next = Real64.ofFraction 1 (1 <<< (count + 1) : Nat))
    (reached : count = 0 ∨ Keeps v maximum count) :
    IsGreatest {n | n = 0 ∨ Keeps v maximum n} last := by
  induction search with
  | @ends next count refused =>
    refine ⟨reached, ?_⟩
    rintro n (rfl | keeps)
    · exact Nat.zero_le _
    · by_contra beyond
      have admitted := (turn_iff positive natural count).mpr (keeps.of_le (by omega))
      rw [← power, refused] at admitted
      cases admitted
  | @turns next count last admitted rest ih =>
    rw [power] at admitted
    have keeps := (turn_iff positive natural count).mp admitted
    refine ih ?_ (.inr keeps)
    rw [power, Real64.half_reciprocal (keeps.le positive)]

theorem exists_search (count : Nat) : ∃ last,
    Search (.real v) maximum (Real64.ofFraction 1 (1 <<< (count + 1) : Nat)) count last := by
  cases admitted : atMost (.real v) (Real64.ofFraction 1 (1 <<< (count + 1) : Nat)) &&
      belowMaximum count maximum with
  | false => exact ⟨count, .ends admitted⟩
  | true =>
    have keeps := (turn_iff positive natural count).mp admitted
    have inRange := keeps.le positive
    obtain ⟨last, rest⟩ := exists_search (count + 1)
    rw [← Real64.half_reciprocal inRange] at rest
    exact ⟨last, .turns admitted rest⟩
termination_by 1074 - count

theorem deepest_eq_countHalvings : deepest (.real v) maximum =
    .ok ⟨countHalvings (.real v) maximum halvingsToZero Real64.half 0⟩ := by
  rw [deepest, Number.isNotPositive_of_pos positive]
  cases maximum with
  | none => rfl
  | some m =>
    obtain ⟨k, integer⟩ := natural m rfl
    simp only [Number.isNegative_of_natural integer]
    rfl

theorem exists_deepest : ∃ last, deepest (.real v) maximum = .ok ⟨last⟩ ∧
    Search (.real v) maximum Real64.half 0 last ∧
    IsGreatest {n | n = 0 ∨ Keeps v maximum n} last := by
  have half : Real64.half = Real64.ofFraction 1 (1 <<< (0 + 1) : Nat) := rfl
  obtain ⟨last, search⟩ := exists_search positive natural 0
  rw [← half] at search
  have greatest := search.isGreatest positive natural half (.inl rfl)
  have enough : last ≤ 0 + halvingsToZero := by
    change last ≤ 0 + 1076
    rcases greatest.1 with rfl | keeps
    · exact Nat.zero_le _
    · have inRange := keeps.le positive
      omega
  refine ⟨last, ?_, search, greatest⟩
  rw [deepest_eq_countHalvings positive natural, countHalvings_of_search search enough]

end Positive

/-- For a positive scale, infinity included, and a maximum that is a natural number if there is one,
the search ends without any bound on its turns. The deepest reduction is where it ends: the greatest
number of halvings that is zero, or keeps at least the scale, read exactly, and is not beyond the
maximum. So a smaller scale is never halved less often. -/
theorem deepest_is_greatest {v : Real64} (positive : Binary.lt 0 v = true)
    {maximum : Option Number} (natural : ∀ m ∈ maximum, ∃ k : Nat, m.integer? = some (k : Int)) :
    ∃ last, deepest (.real v) maximum = .ok ⟨last⟩ ∧
      Search (.real v) maximum Real64.half 0 last ∧
      IsGreatest {n | n = 0 ∨ (v.number ≤ 1 / 2 ^ n ∧
        ∀ m ∈ maximum, ∀ k : Nat, m.integer? = some (k : Int) → n ≤ k)} last ∧
      ∀ w : Real64, Binary.lt 0 w = true → Binary.le w v = true →
        ∃ deeper, deepest (.real w) maximum = .ok ⟨deeper⟩ ∧ last ≤ deeper := by
  obtain ⟨last, found, search, greatest⟩ := exists_deepest positive natural
  refine ⟨last, found, search, greatest, ?_⟩
  intro w positive' le
  obtain ⟨deeper, found', -, greatest'⟩ := exists_deepest positive' natural
  refine ⟨deeper, found', greatest'.2 ?_⟩
  have ordered := (le_iff (by decide) (Real64.isNaN_of_pos positive')
    (Real64.isNaN_of_pos positive)).mp le
  exact greatest.1.imp_right fun keeps => ⟨ordered.trans keeps.1, keeps.2⟩

theorem deepest_is_greatest_of_three_tenths :
    let scale := Real64.ofFraction 3 10
    Binary.lt 0 scale = true ∧ deepest (.real scale) (some (.whole 5)) = .ok ⟨1⟩ ∧
      Search (.real scale) (some (.whole 5)) Real64.half 0 1 := by
  intro scale
  have positive : Binary.lt 0 scale = true := by decide
  have natural : ∀ m ∈ some (Number.whole 5), ∃ k : Nat, m.integer? = some (k : Int) := by
    rintro m ⟨⟩
    exact ⟨5, rfl⟩
  obtain ⟨last, found, search, -⟩ := deepest_is_greatest positive natural
  have once : deepest (.real scale) (some (.whole 5)) = .ok ⟨1⟩ := rfl
  rw [once] at found
  obtain rfl : 1 = last := congrArg Reduction.halvings (Except.ok.inj found)
  exact ⟨positive, once, search⟩

end Reduction

end RasterEdit
