import RasterEdit.Proofs.Request.FitInside

/-!
# Half pixels lost in a box

A request for a box agrees with the request for its tighter side alone, unless the exact share of
the other side is half a pixel above an integer. The single quotient hits such a share exactly and
is rounded up; the product with the rounded factor may fall short of it and is then rounded down.
-/

set_option autoImplicit false

namespace RasterEdit

open Binary Result

theorem Real64.magnitude_half_above {k : Nat} (small : k < 2 ^ 48) :
    (Real64.ofFraction (2 * k + 1 : Nat) (2 : Nat)).magnitude = k + 1 / 2 := by
  have rounded := rounded_fraction (n := 2 * k + 1) (d := 2) (by decide) (by omega)
  have halved : ((2 * k + 1 : Nat) : ℚ) / (2 : Nat) = (2 * k + 1 : Nat) / 2 ^ 1 := by
    rw [pow_one, Nat.cast_ofNat]
  rw [le_antisymm (le_div_of_rounded rounded (by omega) (by decide) halved.le)
    (div_le_of_rounded rounded (by omega) (by decide) halved.ge)]
  push_cast
  ring

namespace ScaleRequest

/-- The share `side * n / d` is half a pixel above `k`, and the product with the rounded factor
falls short of it. -/
structure LosesHalf (side n d k : Nat) : Prop where
  large : 0 < k
  half : 2 * (side * n) = (2 * k + 1) * d
  short : Binary.lt (Real64.ofInt side * Real64.ofFraction n d)
    (Real64.ofFraction (2 * k + 1 : Nat) (2 : Nat)) = true

theorem nearest_of_half {side n d k : Nat} (positive : 0 < d)
    (half : 2 * (side * n) = (2 * k + 1) * d) : (2 * side * n + d) / (2 * d) = k + 1 := by
  have whole : 2 * side * n + d = (k + 1) * (2 * d) := by
    rw [Nat.mul_assoc, half]
    ring
  rw [whole, Nat.mul_div_cancel _ (by omega)]

theorem nearest_of_apart {side n d : Nat} (positive : 0 < d)
    (apart : ∀ k, 2 * (side * n) ≠ (2 * k + 1) * d) :
    2 * (d * ((2 * side * n + d) / (2 * d))) + 1 ≤ 2 * (side * n) + d ∧
      2 * (side * n) + 1 ≤ 2 * (d * ((2 * side * n + d) / (2 * d))) + d := by
  have split := Nat.div_add_mod (2 * side * n + d) (2 * d)
  have rest := Nat.mod_lt (2 * side * n + d) (show 0 < 2 * d by omega)
  generalize (2 * side * n + d) / (2 * d) = k at split ⊢
  generalize (2 * side * n + d) % (2 * d) = r at split rest
  rw [Nat.mul_assoc, Nat.mul_assoc] at split
  -- Without a remainder the share would be half a pixel above `k - 1`.
  have some : r ≠ 0 := by
    rintro rfl
    rcases Nat.eq_zero_or_pos k with rfl | large
    · omega
    · obtain ⟨k, rfl⟩ : ∃ j, k = j + 1 := ⟨k - 1, by omega⟩
      apply apart k
      rw [Nat.mul_add] at split
      rw [Nat.add_mul, Nat.mul_assoc, Nat.mul_comm k]
      omega
  constructor <;> omega

theorem half_lt {side n d k : Nat} (inside : side * n < 2 ^ 16 * d)
    (half : 2 * (side * n) = (2 * k + 1) * d) : k < 2 ^ 16 := by
  have scaled : (2 * k + 1) * d < 2 ^ 17 * d := by
    rw [← half]
    omega
  have odd := Nat.lt_of_mul_lt_mul_right scaled
  omega

section Share

variable {side n d : Nat} (length : Short side) (part : Short n) (whole : Short d)
  (inside : side * n < 2 ^ 16 * d)

include length part whole inside

theorem error_of_inside :
    |side * (Real64.ofFraction n d).magnitude - (side * n : Nat) / d| ≤ 1 / 2 ^ 37 := by
  have error := length.error part whole
  have share : ((side * n : Nat) / d : ℚ) ≤ 2 ^ 16 := by
    rw [div_le_iff₀ whole.pos_cast]
    exact_mod_cast inside.le
  linarith

section Half

variable {k : Nat} (half : 2 * (side * n) = (2 * k + 1) * d)

include half

theorem error_of_half :
    |side * (Real64.ofFraction n d).magnitude - (k + 1 / 2)| ≤ 1 / 2 ^ 37 := by
  have share : ((side * n : Nat) / d : ℚ) = k + 1 / 2 := by
    have halfRat : (2 * (side * n : Nat) : ℚ) = (2 * k + 1) * d := by exact_mod_cast half
    rw [div_eq_iff whole.pos_cast.ne']
    linarith
  rw [← share]
  exact error_of_inside length part whole inside

theorem falls_short_iff : Binary.lt (Real64.ofInt side * Real64.ofFraction n d)
      (Real64.ofFraction (2 * k + 1 : Nat) (2 : Nat)) = true ↔
    (Real64.ofInt side * Real64.ofFraction n d).magnitude < k + 1 / 2 := by
  have small := half_lt inside half
  have product := length.rounded_product part whole
  have odd := Real64.rounded_fraction (n := 2 * k + 1) (d := 2) (by decide) (by omega)
  rw [product.lt_iff odd, Real64.magnitude_half_above (by omega)]

theorem scaledSide_of_kept (kept : ¬LosesHalf side n d k) :
    scaledSide side (Real64.ofFraction n d) = .ok ((k + 1 : Nat) : Int) := by
  rcases Nat.eq_zero_or_pos k with rfl | large
  · -- The product may fall short of one half, but is then its predecessor, which is rounded up.
    obtain ⟨m, read⟩ := exists_scaledSide length part whole
    have least := one_le_scaledSide length part whole (by omega) read
    have one : Short 1 := ⟨by decide, by decide⟩
    have most := scaledSide_fraction_mono part whole one length (by rw [Nat.mul_comm]; omega) read
      (scaledSide_self one length)
    rw [read]
    congr 1
    omega
  · have small := half_lt inside half
    have product := length.rounded_product part whole
    have error := abs_le.mp (error_of_half length part whole inside half)
    have low : k + 1 / 2 ≤ (Real64.ofInt side * Real64.ofFraction n d).magnitude := by
      rw [← not_lt, ← falls_short_iff length part whole inside half]
      exact fun short => kept ⟨large, half, short⟩
    have high := Real64.le_natCast_of_rounded product (k := k + 1) (by omega)
      (by push_cast; linarith [error.2])
    push_cast at high
    rw [scaledSide_eq length]
    apply Real64.roundHalfAway_of_apart (t := 1) product.isFinite
      product.isNegative (by omega)
    · push_cast
      linarith
    · push_cast
      linarith

end Half

theorem scaledSide_of_losesHalf {k : Nat} (loses : LosesHalf side n d k) :
    scaledSide side (Real64.ofFraction n d) = .ok (k : Int) := by
  have small := half_lt inside loses.half
  have product := length.rounded_product part whole
  have error := abs_le.mp (error_of_half length part whole inside loses.half)
  have low := Real64.natCast_le_of_rounded product (k := k) (by omega) (by linarith [error.1])
  rw [scaledSide_eq length]
  exact Real64.roundHalfAway_of_near product.isFinite product.isNegative
    loses.large (by omega) (by linarith)
    ((falls_short_iff length part whole inside loses.half).mp loses.short)

theorem scaledSide_of_apart (fine : d < 2 ^ 16)
    (apart : ∀ k, 2 * (side * n) ≠ (2 * k + 1) * d) :
    scaledSide side (Real64.ofFraction n d) =
      .ok (((2 * side * n + d) / (2 * d) : Nat) : Int) := by
  have positive := whole.pos
  have error := abs_le.mp (error_of_inside length part whole inside)
  obtain ⟨above, below⟩ := nearest_of_apart positive apart
  generalize (2 * side * n + d) / (2 * d) = k at above below ⊢
  have small : k < 2 ^ 16 + 1 := by
    have scaled : d * k < d * (2 ^ 16 + 1) := by omega
    exact Nat.lt_of_mul_lt_mul_left scaled
  have fineRat : (d : ℚ) ≤ 2 ^ 16 := by exact_mod_cast fine.le
  have aboveRat : (2 * (d * k) + 1 : ℚ) ≤ 2 * (side * n : Nat) + d := by exact_mod_cast above
  have belowRat : (2 * (side * n : Nat) + 1 : ℚ) ≤ 2 * (d * k) + d := by exact_mod_cast below
  have low : (k - 1 / 2 + 1 / 2 ^ 17 : ℚ) ≤ (side * n : Nat) / d := by
    rw [le_div_iff₀ whole.pos_cast]
    linarith
  have high : ((side * n : Nat) / d : ℚ) ≤ k + 1 / 2 - 1 / 2 ^ 17 := by
    rw [div_le_iff₀ whole.pos_cast]
    linarith
  rw [scaledSide_eq length]
  apply Real64.roundHalfAway_rounded (t := 17) (length.rounded_product part whole) (by omega)
  · linarith [error.1]
  · linarith [error.2]

theorem scaledSide_eq_nearest (fine : d < 2 ^ 16) (kept : ∀ k, ¬LosesHalf side n d k) :
    scaledSide side (Real64.ofFraction n d) =
      .ok (((2 * side * n + d) / (2 * d) : Nat) : Int) := by
  by_cases half : ∃ k, 2 * (side * n) = (2 * k + 1) * d
  · obtain ⟨k, half⟩ := half
    rw [nearest_of_half whole.pos half]
    exact scaledSide_of_kept length part whole inside half (kept k)
  · exact scaledSide_of_apart length part whole inside fine (not_exists.mp half)

end Share

/-! ## Boxes against single sides -/

section Targets

variable {r single : ScaleRequest} {source box : Size} {reduction : Reduction}

theorem target_eq_of_unchecked (wide : 0 < source.width) (high : 0 < source.height)
    {width height : Nat}
    (left : r.uncheckedTarget source.toPair reduction = .ok (width, height))
    (right : single.uncheckedTarget source.toPair reduction = .ok (width, height)) :
    r.target source.toPair reduction = single.target source.toPair reduction := by
  rw [target_of_unchecked wide high left, target_of_unchecked wide high right]

theorem IntoBox.follows_across (into : r.IntoBox source box) (mode : single.mode = .fitWidth)
    (wanted : single.width = some (.whole box.width)) (narrow : source.width < 2 ^ 16)
    (box_low : box.height < 2 ^ 16)
    (tight : box.width * source.height ≤ box.height * source.width) :
    (∀ k : Nat, LosesHalf source.height box.width source.width k →
      r.target source.toPair reduction = .ok (box.width, k) ∧
        single.target source.toPair reduction = .ok (box.width, (k + 1 : Nat))) ∧
    ((∀ k, ¬LosesHalf source.height box.width source.width k) →
      r.target source.toPair reduction = single.target source.toPair reduction) := by
  have wide := into.wide.pos
  have high := into.high.pos
  have share : source.height * box.width < 2 ^ 16 * source.width := by
    rw [Nat.mul_comm]
    exact tight.trans_lt (Nat.mul_lt_mul_of_pos_right box_low wide)
  have resolved := uncheckedTarget_fitWidth mode wanted wide (by omega) (by omega) reduction
  constructor
  · intro k loses
    have follows := scaledSide_of_losesHalf into.high into.box_wide into.wide share loses
    rw [nearest_of_half wide loses.half] at resolved
    have inside := into.uncheckedTarget_across tight follows reduction
    exact ⟨target_of_pos wide high inside into.box_wide.pos loses.large,
      target_of_pos wide high resolved into.box_wide.pos (Nat.succ_pos k)⟩
  · intro kept
    have follows := scaledSide_eq_nearest into.high into.box_wide into.wide share narrow kept
    exact target_eq_of_unchecked wide high
      (into.uncheckedTarget_across tight follows reduction) resolved

theorem IntoBox.follows_down (into : r.IntoBox source box) (mode : single.mode = .fitHeight)
    (wanted : single.height = some (.whole box.height)) (low : source.height < 2 ^ 16)
    (box_narrow : box.width < 2 ^ 16)
    (tight : box.height * source.width ≤ box.width * source.height) :
    (∀ k : Nat, LosesHalf source.width box.height source.height k →
      r.target source.toPair reduction = .ok (k, box.height) ∧
        single.target source.toPair reduction = .ok ((k + 1 : Nat), box.height)) ∧
    ((∀ k, ¬LosesHalf source.width box.height source.height k) →
      r.target source.toPair reduction = single.target source.toPair reduction) := by
  have wide := into.wide.pos
  have high := into.high.pos
  have share : source.width * box.height < 2 ^ 16 * source.height := by
    rw [Nat.mul_comm]
    exact tight.trans_lt (Nat.mul_lt_mul_of_pos_right box_narrow high)
  have resolved := uncheckedTarget_fitHeight mode wanted high (by omega) (by omega) reduction
  constructor
  · intro k loses
    have follows := scaledSide_of_losesHalf into.wide into.box_high into.high share loses
    rw [nearest_of_half high loses.half] at resolved
    have inside := into.uncheckedTarget_down tight follows reduction
    exact ⟨target_of_pos wide high inside loses.large into.box_high.pos,
      target_of_pos wide high resolved (Nat.succ_pos k) into.box_high.pos⟩
  · intro kept
    have follows := scaledSide_eq_nearest into.wide into.box_high into.high share low kept
    exact target_eq_of_unchecked wide high
      (into.uncheckedTarget_down tight follows reduction) resolved

end Targets

end ScaleRequest

/-- The target of a box is the one of its tighter side alone, unless half a pixel of the other side
is lost: then that side is one pixel short. -/
theorem fit_inside_follows_tighter_side (source box : Size)
    (short : ∀ side ∈ [source.width, source.height, box.width, box.height],
      0 < side ∧ side < 2 ^ 16)
    (width height percent : Option Number) (reduction : Reduction) :
    let inside : ScaleRequest :=
      ⟨.fitInside, some (.whole box.width), some (.whole box.height), percent⟩
    let across : ScaleRequest := ⟨.fitWidth, some (.whole box.width), height, percent⟩
    let down : ScaleRequest := ⟨.fitHeight, width, some (.whole box.height), percent⟩
    (box.width * source.height ≤ box.height * source.width →
      (∀ k : Nat, ScaleRequest.LosesHalf source.height box.width source.width k →
        inside.target source.toPair reduction = .ok (box.width, k) ∧
          across.target source.toPair reduction = .ok (box.width, (k + 1 : Nat))) ∧
      ((∀ k, ¬ScaleRequest.LosesHalf source.height box.width source.width k) →
        inside.target source.toPair reduction = across.target source.toPair reduction)) ∧
    (box.height * source.width < box.width * source.height →
      (∀ k : Nat, ScaleRequest.LosesHalf source.width box.height source.height k →
        inside.target source.toPair reduction = .ok (k, box.height) ∧
          down.target source.toPair reduction = .ok ((k + 1 : Nat), box.height)) ∧
      ((∀ k, ¬ScaleRequest.LosesHalf source.width box.height source.height k) →
        inside.target source.toPair reduction = down.target source.toPair reduction)) := by
  intro inside across down
  simp only [List.forall_mem_cons, List.not_mem_nil, false_imp_iff, implies_true, and_true] at short
  obtain ⟨⟨wide, narrow⟩, ⟨high, low⟩, ⟨box_wide, box_narrow⟩, ⟨box_high, box_low⟩⟩ := short
  have into : inside.IntoBox source box :=
    ⟨rfl, rfl, rfl, ⟨wide, by omega⟩, ⟨high, by omega⟩, ⟨box_wide, by omega⟩, ⟨box_high, by omega⟩⟩
  exact ⟨into.follows_across rfl rfl narrow box_low,
    fun tight => into.follows_down rfl rfl low box_narrow tight.le⟩

theorem fit_inside_follows_tighter_side_upright :
    (∀ side ∈ [6, 27, 13, 59], 0 < side ∧ side < 2 ^ 16) ∧
      ScaleRequest.LosesHalf 27 13 6 58 ∧
      (⟨.fitInside, some (.whole 13), some (.whole 59), none⟩ : ScaleRequest).target (6, 27)
        .none = .ok (13, 58) ∧
      (⟨.fitWidth, some (.whole 13), none, none⟩ : ScaleRequest).target (6, 27) .none =
        .ok (13, 59) := by
  have short : ∀ side ∈ [6, 27, 13, 59], 0 < side ∧ side < 2 ^ 16 := by decide
  have loses : ScaleRequest.LosesHalf 27 13 6 58 := ⟨by decide, by decide, by decide +kernel⟩
  obtain ⟨across, -⟩ :=
    fit_inside_follows_tighter_side ⟨6, 27⟩ ⟨13, 59⟩ short none none none .none
  exact ⟨short, loses, (across (by decide)).1 58 loses⟩

/-- An accepted box that loses half a pixel: the height is one pixel less than the one that the
width alone would have. -/
theorem fit_inside_loses_half_pixel :
    ∃ inside across, ScaleRequest.ofFields [("mode", .text "aspect_fit_inside"),
        ("width", .whole 13), ("height", .whole 59)] = .ok inside ∧
      ScaleRequest.ofFields [("mode", .text "aspect_fit_width"), ("width", .whole 13)] =
        .ok across ∧
      13 * 27 ≤ 59 * 6 ∧ inside.target (6, 27) .none = .ok (13, 58) ∧
      across.target (6, 27) .none = .ok (13, 59) :=
  ⟨_, _, rfl, rfl, by decide, rfl, rfl⟩

end RasterEdit
