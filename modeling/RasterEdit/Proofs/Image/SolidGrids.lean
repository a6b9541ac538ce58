import RasterEdit.Proofs.Image.Averages
import RasterEdit.Proofs.Image.Lanczos

/-!
# Grids of one colour

Resizing a grid whose pixels are all equal gives such a grid again. Both passes keep the pixel,
since their kernels are steady; averaging blocks first keeps it while the blocks are not too large.
-/

set_option autoImplicit false

namespace RasterEdit

open Binary

/-! ## Formats that have the counts of pixels -/

namespace Format

/-- A format that has every count up to `2 ^ 14`. -/
structure Counts (f : Format) : Prop where
  precise : 0 < f.precision
  ranged : 0 < f.maxExponent
  least : f.leastQuantum ≤ 0
  roomy : 2 ^ 14 < 2 * f.hidden
  bounded : (2 : ℚ) ^ 14 < f.overflow

theorem counts_binary64 : Format.binary64.Counts :=
  ⟨by decide, by decide, by decide, by decide, Real64.two_pow_lt_overflow (by decide)⟩

theorem counts_binary32 : Format.binary32.Counts := by
  refine ⟨by decide, by decide, by decide, by decide, ?_⟩
  have top : (2 : ℚ) ^ (127 : ℤ) ≤ _ := (overflow_bounds .binary32).1
  exact lt_of_lt_of_le (by norm_num) top

namespace Counts

variable {f : Format} (counts : f.Counts) {a b : Nat} (small : b ≤ 2 ^ 14)

include counts small

theorem abs_lt_overflow {v : ℚ} (low : a ≤ v) (high : v ≤ b) : |v| < f.overflow := by
  have most : (b : ℚ) ≤ 2 ^ 14 := by exact_mod_cast small
  rw [abs_of_nonneg (a.cast_nonneg.trans low)]
  exact (high.trans most).trans_lt counts.bounded

theorem bounds {x : Binary f} {v : ℚ} (signed : SignedRounded x v) (low : a ≤ v) (high : v ≤ b) :
    x.isFinite = true ∧ a ≤ x.number ∧ x.number ≤ b :=
  ⟨signed.isFinite, signed.bounds counts.least low high (small.trans_lt counts.roomy)⟩

theorem ofFraction_bounds {n d : Nat} (divisor : d ≠ 0) (low : (a : ℚ) ≤ n / d)
    (high : (n : ℚ) / d ≤ b) : (ofFraction f n d).isFinite = true ∧
      a ≤ (ofFraction f n d).number ∧ (ofFraction f n d).number ≤ b := by
  have below := counts.abs_lt_overflow small low high
  rw [abs_of_nonneg (a.cast_nonneg.trans low)] at below
  have rounded := rounded_ofFraction counts.precise counts.ranged divisor below
  exact ⟨rounded.isFinite,
    rounded.bounds counts.least low high (small.trans_lt counts.roomy)⟩

theorem toFormat_bounds {g : Format} {x : Binary g} (finite : x.isFinite = true)
    (low : a ≤ x.number) (high : x.number ≤ b) : (x.toFormat f).isFinite = true ∧
      a ≤ (x.toFormat f).number ∧ (x.toFormat f).number ≤ b :=
  counts.bounds small (signedRounded_toFormat counts.precise counts.ranged finite
    (counts.abs_lt_overflow small low high)) low high

end Counts

end Format

namespace Resample

variable {n : Nat} {w h : Nat} {p : Vector UInt8 n}

theorem channelAt_replicate {row col : Nat} (hr : row < h) (hc : col < w) (k : Fin n) :
    channelAt (.replicate w h p) row col k = (p.get k).toNat := by
  have stored : (Array.replicate (w * h) p)[row * w + col]? = some p := by
    rw [Array.getElem?_replicate, if_pos (Grid.index_lt hr hc)]
  simp only [channelAt, Grid.replicate, stored]

/-! ## Passes -/

section Passes

variable {kernel : Kernel} (steady : kernel.Steady) {limit : Real64}

include steady

theorem across_replicate {width : Nat} (axis : Axis w width limit) :
    across kernel width limit (.replicate w h p) = .replicate width h p := by
  unfold across
  refine Grid.ofFn_eq_replicate fun row col hr hc => ?_
  refine Vector.ext fun k hk => ?_
  rw [Vector.getElem_ofFn, Array.getElem_ofFn]
  exact steady.combine_taps axis hc fun source inside => channelAt_replicate hr inside ⟨k, hk⟩

theorem down_replicate {height : Nat} (axis : Axis h height limit) :
    down kernel height limit (.replicate w h p) = .replicate w height p := by
  unfold down
  refine Grid.ofFn_eq_replicate fun row col hr hc => ?_
  refine Vector.ext fun k hk => ?_
  rw [Vector.getElem_ofFn, Array.getElem_ofFn]
  exact steady.combine_taps axis hr fun source inside => channelAt_replicate inside hc ⟨k, hk⟩

/-- A pass that is left out would not change anything either. -/
theorem horizontal_replicate {width : Nat} (axis : Axis w width limit) :
    (if isTrivial w width limit then .replicate w h p
      else across kernel width limit (.replicate w h p)) = .replicate width h p := by
  split
  · next trivial =>
    simp only [isTrivial, Bool.and_eq_true, beq_iff_eq] at trivial
    rw [trivial.1]
  · exact across_replicate steady axis

theorem vertical_replicate {height : Nat} (axis : Axis h height limit) :
    (if isTrivial h height limit then .replicate w h p
      else down kernel height limit (.replicate w h p)) = .replicate w height p := by
  split
  · next trivial =>
    simp only [isTrivial, Bool.and_eq_true, beq_iff_eq] at trivial
    rw [trivial.1]
  · exact down_replicate steady axis

theorem resize_replicate {width height : Nat} {limits : Real64 × Real64}
    (horizontal : Axis w width limits.1) (vertical : Axis h height limits.2) :
    resize kernel width height limits (.replicate w h p) = .replicate width height p := by
  have rows (w' : Nat) := vertical_replicate steady (w := w') (p := p) vertical
  have columns (h' : Nat) := horizontal_replicate steady (h := h') (p := p) horizontal
  unfold resize
  dsimp only
  split
  · exact (congrArg (fun g : Grid (Vector UInt8 n) => if isTrivial g.width width limits.1 then g
      else across kernel width limits.1 g) (rows w)).trans (columns height)
  · exact (congrArg (fun g : Grid (Vector UInt8 n) => if isTrivial g.height height limits.2 then g
      else down kernel height limits.2 g) (columns h)).trans (rows width)

end Passes

/-! ## Blocks -/

theorem foldl_add_equal {α : Type} {v : Nat} {step : Nat → α → Nat} (l : List α)
    (adds : ∀ a ∈ l, ∀ sum, step sum a = sum + v) (start : Nat) :
    l.foldl step start = start + l.length * v := by
  induction l generalizing start with
  | nil => simp
  | cons a l ih =>
    rw [List.foldl_cons, ih (fun b member => adds b (List.mem_cons_of_mem _ member)),
      adds a List.mem_cons_self, List.length_cons, Nat.succ_mul]
    omega

theorem lt_of_lt_blocks {side factor block : Nat} (positive : 0 < factor)
    (inside : block < blocks side factor) : block * factor < side := by
  have le := Nat.mul_le_of_le_div factor (block + 1) _ inside
  rw [Nat.add_mul, Nat.one_mul] at le
  omega

/-- What a block of equal pixels becomes depends on how many it has. -/
theorem reduce_replicate {fx fy : Nat} {q : Vector UInt8 n}
    (averaged : ∀ row < blocks h fy, ∀ col < blocks w fx, ∀ k : Fin n,
      average ((p.get k).toNat * (min fy (h - row * fy) * min fx (w - col * fx)))
        (min fy (h - row * fy) * min fx (w - col * fx)) = q.get k) :
    reduce fx fy (.replicate w h p) = .replicate (blocks w fx) (blocks h fy) q := by
  unfold reduce
  refine Grid.ofFn_eq_replicate fun row col hr hc => ?_
  refine Vector.ext fun k hk => ?_
  rw [Vector.getElem_ofFn]
  have line (r : Nat) (hr' : r ∈ List.range (min fy (h - row * fy))) (sum : Nat) :
      (List.range (min fx (w - col * fx))).foldl (fun sum c =>
        sum + channelAt (.replicate w h p) (row * fy + r) (col * fx + c) ⟨k, hk⟩) sum =
          sum + min fx (w - col * fx) * (p.get ⟨k, hk⟩).toNat := by
    refine (foldl_add_equal _ (fun c hc' sum => ?_) sum).trans (by rw [List.length_range])
    rw [channelAt_replicate (by have := List.mem_range.mp hr'; omega)
      (by have := List.mem_range.mp hc'; omega)]
  refine Eq.trans ?_ (averaged row hr col hc ⟨k, hk⟩)
  dsimp only [Grid.replicate] at line ⊢
  congr 1
  refine (foldl_add_equal _ line 0).trans ?_
  rw [List.length_range]
  ring

/-- Blocks of moderate size keep the pixel. -/
theorem reduce_replicate_of_small {fx fy : Nat} (wide : 0 < fx) (high : 0 < fy)
    (small : fx * fy ≤ 33156) :
    reduce fx fy (.replicate w h p) = .replicate (blocks w fx) (blocks h fy) p := by
  refine reduce_replicate fun row hr col hc k => average_equal _ ?_ ?_
  · have := lt_of_lt_blocks high hr
    have := lt_of_lt_blocks wide hc
    exact Nat.mul_pos (by omega) (by omega)
  · rw [Nat.mul_comm fx] at small
    exact (Nat.mul_le_mul (min_le_left _ _) (min_le_left _ _)).trans small

/-- Blocks that fill the grid have the average of a whole block. -/
theorem reduce_replicate_of_dvd {fx fy : Nat} (across : fx ∣ w) (down : fy ∣ h)
    {q : Vector UInt8 n}
    (averaged : ∀ k : Fin n, average ((p.get k).toNat * (fy * fx)) (fy * fx) = q.get k) :
    reduce fx fy (.replicate w h p) = .replicate (blocks w fx) (blocks h fy) q := by
  have whole {side factor block : Nat} (divides : factor ∣ side)
      (inside : block < blocks side factor) : min factor (side - block * factor) = factor := by
    obtain ⟨count, rfl⟩ := divides
    rcases Nat.eq_zero_or_pos factor with rfl | positive
    · simp
    · have last := lt_of_lt_blocks positive inside
      rw [Nat.mul_comm factor, Nat.mul_lt_mul_right positive] at last
      rw [Nat.mul_comm factor, ← Nat.sub_mul, min_eq_left]
      exact Nat.le_mul_of_pos_left factor (by omega)
  refine reduce_replicate fun row hr col hc k => ?_
  rw [whole down hr, whole across hc]
  exact averaged k

theorem topLeft_replicate {width height : Nat} (across : width ≤ w) (down : height ≤ h) :
    topLeft width height (.replicate w h p) = .replicate width height p := by
  unfold topLeft
  refine Grid.ofFn_eq_replicate fun row col hr hc => ?_
  refine Vector.ext fun k hk => ?_
  rw [Vector.getElem_ofFn, channelAt_replicate (hr.trans_le down) (hc.trans_le across)]
  exact UInt8.ofNat_toNat

/-! ## Factors and limits -/

/-- A side that becomes another: some pixels, not too many, become as many as can be counted. -/
structure Resized (source target : Nat) : Prop where
  nonempty : 0 < source
  short : source ≤ 2 ^ 14
  positive : 0 < target
  countable : (Real64.ofInt target).isFinite = true

theorem Resized.whole {side m : Nat} (resized : Resized side m) :
    Axis side m (Real64.ofInt side) := by
  have short := resized.short
  have number : (Real64.ofInt side).number = side := Real64.number_ofInt (by omega)
  have least : (1 : ℚ) ≤ side := by exact_mod_cast resized.nonempty
  exact ⟨Real64.isFinite_of_small (by omega), number ▸ least, number.le, short, resized.positive,
    resized.countable⟩

theorem blocks_bounds {side factor : Nat} (nonempty : 0 < side) (positive : 0 < factor) :
    side ≤ blocks side factor * factor ∧ blocks side factor ≤ side := by
  constructor
  · have split := Nat.div_add_mod (side + factor - 1) factor
    have rest := Nat.mod_lt (side + factor - 1) positive
    unfold blocks
    rw [Nat.mul_comm]
    omega
  · refine Nat.div_le_of_le_mul ?_
    obtain ⟨s, rfl⟩ := Nat.exists_eq_succ_of_ne_zero nonempty.ne'
    obtain ⟨f, rfl⟩ := Nat.exists_eq_succ_of_ne_zero positive.ne'
    simp only [Nat.succ_eq_add_one, Nat.add_mul, Nat.mul_add]
    omega

/-- The limit after averaging blocks: at least a block, and at most all of them. -/
theorem Resized.reduced {side factor m : Nat} (resized : Resized side m) (divides : 0 < factor)
    (few : factor ≤ side) : Axis (blocks side factor) m (reducedLimit side factor) := by
  have short := resized.short
  have cast : (0 : ℚ) < factor := by exact_mod_cast divides
  obtain ⟨cover, le⟩ := blocks_bounds (divides.trans_le few) divides
  have low : ((1 : Nat) : ℚ) ≤ side / factor := by
    rw [Nat.cast_one, one_le_div cast]
    exact_mod_cast few
  have high : (side : ℚ) / factor ≤ blocks side factor := by
    rw [div_le_iff₀ cast]
    exact_mod_cast cover
  have small := le.trans short
  obtain ⟨firstFinite, firstLow, firstHigh⟩ :=
    Format.counts_binary64.ofFraction_bounds small divides.ne' low high
  obtain ⟨secondFinite, secondLow, secondHigh⟩ :=
    Format.counts_binary32.toFormat_bounds small firstFinite firstLow firstHigh
  obtain ⟨thirdFinite, thirdLow, thirdHigh⟩ :=
    Format.counts_binary64.toFormat_bounds small secondFinite secondLow secondHigh
  rw [Nat.cast_one] at thirdLow
  exact ⟨thirdFinite, thirdLow, thirdHigh, small, resized.positive, resized.countable⟩

/-- No more pixels go into a block than the axis has. -/
theorem Resized.factor_bounds {side target : Nat} (resized : Resized side target) {gap : Real64}
    (finite : gap.isFinite = true) (atLeast : 1 ≤ gap.number) :
    0 < reductionFactor side target gap ∧ reductionFactor side target gap ≤ side := by
  obtain ⟨nonempty, short, positive, -⟩ := resized
  have castOne : (1 : ℚ) ≤ target := by exact_mod_cast positive
  have low : ((0 : Nat) : ℚ) ≤ side / target := by
    rw [Nat.cast_zero]
    positivity
  have high : (side : ℚ) / target ≤ side := div_le_self side.cast_nonneg castOne
  obtain ⟨firstFinite, firstLow, firstHigh⟩ :=
    Format.counts_binary64.ofFraction_bounds short positive.ne' low high
  have gapPos : 0 < gap.number := by linarith
  have quotientLow : ((0 : Nat) : ℚ) ≤ (Real64.ofFraction side target).number / gap.number := by
    rw [Nat.cast_zero] at firstLow ⊢
    exact div_nonneg firstLow gapPos.le
  have quotientHigh : (Real64.ofFraction side target).number / gap.number ≤ side :=
    (div_le_self (by exact_mod_cast firstLow) atLeast).trans firstHigh
  obtain ⟨secondFinite, -, bound⟩ := Format.counts_binary64.bounds short
    (signedRounded_div (by decide) (by decide) firstFinite finite gapPos.ne'
      (Format.counts_binary64.abs_lt_overflow short quotientLow quotientHigh))
    quotientLow quotientHigh
  have floor : (truncated (Real64.ofFraction side target / gap)).toNat ≤ side :=
    (toNat_truncated secondFinite).le.trans (Nat.floor_le_of_le bound)
  unfold reductionFactor
  omega

/-! ## Resizing -/

section Fine

variable {width height : Nat} {gap : Real64} (across : Resized w width) (down : Resized h height)
  (finite : gap.isFinite = true) (atLeast : 1 ≤ gap.number)

include across down finite atLeast

/-- If blocks are averaged, their colour is that of the result. -/
theorem resizeFine_of_reduce {q : Vector UInt8 n}
    (coarse : ¬ (reductionFactor w width gap ≤ 1 ∧ reductionFactor h height gap ≤ 1))
    (averaged : reduce (reductionFactor w width gap) (reductionFactor h height gap)
      (.replicate w h p) = .replicate (blocks w (reductionFactor w width gap))
        (blocks h (reductionFactor h height gap)) q) :
    resizeFine gap width height (.replicate w h p) = .replicate width height q := by
  obtain ⟨wide, narrow⟩ := across.factor_bounds finite atLeast
  obtain ⟨high, low⟩ := down.factor_bounds finite atLeast
  have horizontal := across.reduced wide narrow
  have vertical := down.reduced high low
  have within {side factor target : Nat} (axis : Axis (blocks side factor) target
      (reducedLimit side factor))
      (hit : Binary.equal (reducedLimit side factor) (Real64.ofInt target) = true) :
      target ≤ blocks side factor := by
    rw [equal_iff (by decide) (isNaN_of_isFinite axis.finite) (isNaN_of_isFinite axis.countable)]
      at hit
    by_contra beyond
    have short := axis.short
    have next := (Real64.number_ofInt_mono (not_le.mp beyond) axis.countable).2
    rw [Real64.number_ofInt (by omega), ← hit] at next
    push_cast at next
    linarith [axis.inside]
  unfold resizeFine
  dsimp only [Grid.replicate] at averaged ⊢
  rw [if_neg coarse, averaged]
  split
  · next hit => exact topLeft_replicate (within horizontal hit.1) (within vertical hit.2)
  · exact resize_replicate steady_lanczos horizontal vertical

theorem resizeFine_replicate
    (small : reductionFactor w width gap * reductionFactor h height gap ≤ 33156) :
    resizeFine gap width height (.replicate w h p) = .replicate width height p := by
  by_cases plain : reductionFactor w width gap ≤ 1 ∧ reductionFactor h height gap ≤ 1
  · unfold resizeFine
    dsimp only [Grid.replicate]
    rw [if_pos plain]
    exact resize_replicate steady_lanczos across.whole down.whole
  · exact resizeFine_of_reduce across down finite atLeast plain
      (reduce_replicate_of_small (across.factor_bounds finite atLeast).1
        (down.factor_bounds finite atLeast).1 small)

end Fine

end Resample

namespace Picture

/-- Whether a quality averages no more pixels into one than bytes can bear. -/
def Quality.Bears (quality : Quality) (w h width height : Nat) : Prop :=
  match quality with
  | fast => True
  | fine gap => gap.isFinite = true ∧ 1 ≤ gap.number ∧
      Resample.reductionFactor w width gap * Resample.reductionFactor h height gap ≤ 33156

theorem Quality.resize_replicate {quality : Quality} {w h width height n : Nat}
    (across : Resample.Resized w width) (down : Resample.Resized h height)
    (bears : quality.Bears w h width height) (p : Vector UInt8 n) :
    quality.resize width height (.replicate w h p) = .replicate width height p := by
  cases quality with
  | fast => exact Resample.resize_replicate Resample.steady_bilinear across.whole down.whole
  | fine gap => exact Resample.resizeFine_replicate across down bears.1 bears.2.1 bears.2.2

end Picture

end RasterEdit
