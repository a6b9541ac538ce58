import RasterEdit.Proofs.Request.Expressible
import RasterEdit.Proofs.Request.Reached

/-!
# Larger requests

Of two requests of one mode, the one that asks for at least as much of everything has a target
whenever the other one has, and it is at least as wide and as high. Every rounded step on the way
keeps the order of its operands: quotients, the smaller of two factors, products with a side and the
rounding to pixels. Only an overflow could come between, which short products rule out.
-/

set_option autoImplicit false

namespace RasterEdit

open Binary Result

/-- A number that is at most another one of its kind. -/
inductive Number.AtMost : Number → Number → Prop where
  | whole {m n : Int} (le : m ≤ n) : AtMost (.whole m) (.whole n)
  | real {x y : Real64} (le : Binary.le x y = true) : AtMost (.real x) (.real y)

theorem Number.AtMost.whole_le {m n : Nat} (atMost : AtMost (.whole m) (.whole n)) : m ≤ n := by
  cases atMost with
  | whole le => exact Int.ofNat_le.mp le

theorem Number.AtMost.real_le {x y : Real64} (atMost : AtMost (.real x) (.real y)) :
    x.number ≤ y.number := by
  cases atMost with
  | real le =>
    obtain ⟨left, right⟩ := not_isNaN_of_le le
    exact (le_iff (by decide) left right).mp le

theorem Real64.number_reciprocal_pos {k : Nat} (inRange : k ≤ 1023) :
    0 < (Real64.ofFraction 1 (1 <<< k : Nat)).number := by
  have leans := Leans.isNegative (Real64.ofFraction 1 (1 <<< k : Nat))
  rw [isNegative_reciprocal] at leans
  rw [number_eq_magnitude leans, magnitude_reciprocal (inRange.trans (by decide))]
  positivity

namespace ScaleRequest

/-- Of everything that the mode needs, the second request asks for at least as much. -/
structure AtMost (r s : ScaleRequest) : Prop where
  mode : r.mode = s.mode
  targets : List.Forall₂ (fun a b => Option.Rel Number.AtMost a.2 b.2) r.needed s.needed

/-- The wanted sides, and the products of the sides of the source with what is wanted. The products
with the factor of a box are short whenever the sides of the box are. -/
def products (r : ScaleRequest) (source : Size) (reduction : Reduction) : List ℚ :=
  match r.mode, r.width, r.height, r.percent with
  | .fitWidth, some (.whole width), _, _ => [(width : ℚ), source.height * width]
  | .fitHeight, _, some (.whole height), _ => [(height : ℚ), source.width * height]
  | .fill, some (.whole width), some (.whole height), _ => [(width : ℚ), height]
  | .fitInside, some (.whole width), some (.whole height), _ => [(width : ℚ), height]
  | .percent, _, _, some (.real factor) =>
    [source.width * (factor.number * 2 ^ reduction.halvings),
      source.height * (factor.number * 2 ^ reduction.halvings)]
  | _, _, _, _ => []

/-- Accepted requests of one mode, in the order of what they want. -/
inductive Ordered : ScaleRequest → ScaleRequest → Prop where
  | fitWidth {m n : Nat} {height height' percent percent' : Option Number} (le : m ≤ n) :
      Ordered ⟨.fitWidth, some (.whole m), height, percent⟩
        ⟨.fitWidth, some (.whole n), height', percent'⟩
  | fitHeight {m n : Nat} {width width' percent percent' : Option Number} (le : m ≤ n) :
      Ordered ⟨.fitHeight, width, some (.whole m), percent⟩
        ⟨.fitHeight, width', some (.whole n), percent'⟩
  | fill {m m' n n' : Nat} {percent percent' : Option Number} (across : m ≤ m') (down : n ≤ n') :
      Ordered ⟨.fill, some (.whole m), some (.whole n), percent⟩
        ⟨.fill, some (.whole m'), some (.whole n'), percent'⟩
  | fitInside {m m' n n' : Nat} {percent percent' : Option Number} (across : m ≤ m')
      (down : n ≤ n') :
      Ordered ⟨.fitInside, some (.whole m), some (.whole n), percent⟩
        ⟨.fitInside, some (.whole m'), some (.whole n'), percent'⟩
  | percent {x y : Real64} {width width' height height' : Option Number}
      (finite : x.isFinite = true) (finite' : y.isFinite = true) (le : x.number ≤ y.number) :
      Ordered ⟨.percent, width, height, some (.real x)⟩
        ⟨.percent, width', height', some (.real y)⟩

section Requests

variable {r s : ScaleRequest}

theorem AtMost.ordered (atMost : r.AtMost s) (accepted : r.Accepted) (acceptedLarger : s.Accepted) :
    r.Ordered s := by
  obtain ⟨mode, targets⟩ := atMost
  cases accepted with
  | @fitWidth m =>
    cases acceptedLarger with
    | @fitWidth n =>
      obtain _ | ⟨⟨atMost⟩, -⟩ := targets
      exact .fitWidth atMost.whole_le
    | _ => cases mode
  | @fitHeight m =>
    cases acceptedLarger with
    | @fitHeight n =>
      obtain _ | ⟨⟨atMost⟩, -⟩ := targets
      exact .fitHeight atMost.whole_le
    | _ => cases mode
  | @fill m n =>
    cases acceptedLarger with
    | @fill m' n' =>
      obtain _ | ⟨⟨across⟩, _ | ⟨⟨down⟩, -⟩⟩ := targets
      exact .fill across.whole_le down.whole_le
    | _ => cases mode
  | @fitInside m n =>
    cases acceptedLarger with
    | @fitInside m' n' =>
      obtain _ | ⟨⟨across⟩, _ | ⟨⟨down⟩, -⟩⟩ := targets
      exact .fitInside across.whole_le down.whole_le
    | _ => cases mode
  | @percent width height x finite =>
    cases acceptedLarger with
    | @percent width' height' y finite' =>
      obtain _ | ⟨⟨atMost⟩, -⟩ := targets
      exact .percent finite finite' atMost.real_le
    | _ => cases mode

end Requests

/-! ## Steps that keep the order -/

theorem realOfFraction_mono {n n' d : Nat} (positive : 0 < d) (le : n ≤ n') {x y : Real64}
    (left : realOfFraction n d = .ok x) (right : realOfFraction n' d = .ok y) :
    x.number ≤ y.number := by
  have rounded {n : Nat} {x : Real64} (quotient : realOfFraction n d = .ok x) :
      Rounded x (n / d) := by
    obtain ⟨finite, rfl⟩ := realOfFraction_eq_ok.mp quotient
    have divisor : (d : Int) ≠ 0 := by omega
    rw [Real64.isFinite_ofFraction_iff n divisor, Int.natAbs_natCast, Int.natAbs_natCast] at finite
    exact rounded_ofFraction (by decide) (by decide) positive.ne' finite
  rw [(rounded left).number_eq, (rounded right).number_eq]
  apply (rounded left).mono (rounded right)
  gcongr

theorem number_smaller {a b : Real64} (left : a.isFinite = true) (right : b.isFinite = true) :
    (smaller a b).number = min a.number b.number := by
  have ordered := lt_iff (f := .binary64) (by decide) (isNaN_of_isFinite right)
    (isNaN_of_isFinite left)
  unfold smaller
  split
  · next below => rw [min_eq_right (ordered.mp below).le]
  · next above => rw [min_eq_left (not_lt.mp (ordered.not.mp above))]

theorem isFinite_of_scaledSide {side k : Int} {factor : Real64}
    (read : scaledSide side factor = .ok k) : factor.isFinite = true := by
  obtain ⟨x, -, rounded⟩ := bind_eq_ok.mp read
  exact isFinite_right_of_mul (roundHalfAway_succeeds.mp ⟨k, rounded⟩)

theorem scaledSides_eq_ok {width height : Int} {factor : Real64} {target : Int × Int}
    (resolved : (do return (← scaledSide width factor, ← scaledSide height factor)) = .ok target) :
    scaledSide width factor = .ok target.1 ∧ scaledSide height factor = .ok target.2 := by
  obtain ⟨across, wide, resolved⟩ := bind_eq_ok.mp resolved
  obtain ⟨down, high, resolved⟩ := bind_eq_ok.mp resolved
  cases resolved
  exact ⟨wide, high⟩

section Targets

variable {r s : ScaleRequest} {source : Size} {reduction : Reduction} {target : Int × Int}

theorem fitWidth_eq_ok {n : Nat} {height percent : Option Number}
    (resolved : uncheckedTarget ⟨.fitWidth, some (.whole n), height, percent⟩ source.toPair
      reduction = .ok target) :
    ∃ x, realOfFraction (source.height * n : Nat) source.width = .ok x ∧ target.1 = n ∧
      roundHalfAway x = .ok target.2 := by
  simp only [uncheckedTarget, require, Number.truncate, ok_bind] at resolved
  obtain ⟨x, quotient, resolved⟩ := bind_eq_ok.mp resolved
  obtain ⟨height, rounded, resolved⟩ := bind_eq_ok.mp resolved
  cases resolved
  exact ⟨x, quotient, rfl, rounded⟩

theorem fitHeight_eq_ok {n : Nat} {width percent : Option Number}
    (resolved : uncheckedTarget ⟨.fitHeight, width, some (.whole n), percent⟩ source.toPair
      reduction = .ok target) :
    ∃ x, realOfFraction (source.width * n : Nat) source.height = .ok x ∧ target.2 = n ∧
      roundHalfAway x = .ok target.1 := by
  simp only [uncheckedTarget, require, Number.truncate, ok_bind] at resolved
  obtain ⟨x, quotient, resolved⟩ := bind_eq_ok.mp resolved
  obtain ⟨width, rounded, resolved⟩ := bind_eq_ok.mp resolved
  cases resolved
  exact ⟨x, quotient, rfl, rounded⟩

theorem fitInside_eq_ok {m n : Nat} {percent : Option Number}
    (resolved : uncheckedTarget ⟨.fitInside, some (.whole m), some (.whole n), percent⟩
      source.toPair reduction = .ok target) :
    ∃ across down, realOfFraction m source.width = .ok across ∧
      realOfFraction n source.height = .ok down ∧
      scaledSide source.width (smaller across down) = .ok target.1 ∧
      scaledSide source.height (smaller across down) = .ok target.2 := by
  simp only [uncheckedTarget, require, quotient, Number.integer?, ok_bind] at resolved
  obtain ⟨across, wide, resolved⟩ := bind_eq_ok.mp resolved
  obtain ⟨down, high, resolved⟩ := bind_eq_ok.mp resolved
  exact ⟨across, down, wide, high, scaledSides_eq_ok resolved⟩

theorem percent_eq_ok {x : Real64} {width height : Option Number}
    (resolved : uncheckedTarget ⟨.percent, width, height, some (.real x)⟩ source.toPair
      reduction = .ok target) :
    reduction.halvings ≤ 1023 ∧
      scaledSide source.width (x / Real64.ofFraction 1 (1 <<< reduction.halvings : Nat)) =
        .ok target.1 ∧
      scaledSide source.height (x / Real64.ofFraction 1 (1 <<< reduction.halvings : Nat)) =
        .ok target.2 := by
  simp only [uncheckedTarget, require, Number.toReal, ok_bind] at resolved
  obtain ⟨scale, scaled, resolved⟩ := bind_eq_ok.mp resolved
  obtain ⟨inRange, rfl⟩ := Reduction.scale_eq_ok.mp scaled
  exact ⟨inRange, scaledSides_eq_ok resolved⟩

/-- Whatever both requests resolve to is in their order. -/
theorem Ordered.uncheckedTarget_mono (ordered : r.Ordered s) (wide : 0 < source.width)
    (high : 0 < source.height) {larger : Int × Int}
    (left : r.uncheckedTarget source.toPair reduction = .ok target)
    (right : s.uncheckedTarget source.toPair reduction = .ok larger) :
    target.1 ≤ larger.1 ∧ target.2 ≤ larger.2 := by
  cases ordered with
  | fitWidth le =>
    obtain ⟨x, quotient, across, rounded⟩ := fitWidth_eq_ok left
    obtain ⟨y, quotient', across', rounded'⟩ := fitWidth_eq_ok right
    have products := realOfFraction_mono wide (Nat.mul_le_mul_left _ le) quotient quotient'
    rw [across, across']
    exact ⟨Int.ofNat_le.mpr le, Real64.roundHalfAway_mono products rounded rounded'⟩
  | fitHeight le =>
    obtain ⟨x, quotient, down, rounded⟩ := fitHeight_eq_ok left
    obtain ⟨y, quotient', down', rounded'⟩ := fitHeight_eq_ok right
    have products := realOfFraction_mono high (Nat.mul_le_mul_left _ le) quotient quotient'
    rw [down, down']
    exact ⟨Real64.roundHalfAway_mono products rounded rounded', Int.ofNat_le.mpr le⟩
  | fill across down =>
    cases left
    cases right
    exact ⟨Int.ofNat_le.mpr across, Int.ofNat_le.mpr down⟩
  | fitInside across down =>
    obtain ⟨x, y, first, second, sides⟩ := fitInside_eq_ok left
    obtain ⟨x', y', first', second', sides'⟩ := fitInside_eq_ok right
    have factors : (smaller x y).number ≤ (smaller x' y').number := by
      have finite {n d : Int} {x : Real64} (quotient : realOfFraction n d = .ok x) :
          x.isFinite = true := by
        obtain ⟨finite, rfl⟩ := realOfFraction_eq_ok.mp quotient
        exact finite
      rw [number_smaller (finite first) (finite second),
        number_smaller (finite first') (finite second')]
      exact min_le_min (realOfFraction_mono wide across first first')
        (realOfFraction_mono high down second second')
    exact ⟨scaledSide_mono factors sides.1 sides'.1, scaledSide_mono factors sides.2 sides'.2⟩
  | percent finite finite' le =>
    obtain ⟨inRange, sides⟩ := percent_eq_ok left
    obtain ⟨-, sides'⟩ := percent_eq_ok right
    have factors := number_div_mono (by decide) (by decide) finite finite'
      (Real64.isFinite_reciprocal reduction.halvings) (Real64.number_reciprocal_pos inRange) le
      (isFinite_of_scaledSide sides.1) (isFinite_of_scaledSide sides'.1)
    exact ⟨scaledSide_mono factors sides.1 sides'.1, scaledSide_mono factors sides.2 sides'.2⟩

/-! ## Short requests -/

theorem short_lt_overflow {v : ℚ} (short : v < 2 ^ 50) : v < Format.binary64.overflow :=
  short.trans (Real64.two_pow_lt_overflow (by decide))

theorem quotient_lt_overflow {v : ℚ} {d : Nat} (nonneg : 0 ≤ v) (positive : 0 < d)
    (short : v < 2 ^ 50) : v / d < Format.binary64.overflow := by
  have whole : (1 : ℚ) ≤ d := by exact_mod_cast positive
  exact short_lt_overflow ((div_le_self nonneg whole).trans_lt short)

theorem magnitude_smaller_lt {m n m' n' : Nat} (across : Short m) (wide : Short m')
    (down : Short n) (high : Short n') :
    (smaller (Real64.ofFraction m m') (Real64.ofFraction n n')).magnitude < 2 ^ 50 := by
  unfold smaller
  split
  · exact (down.magnitude_le high).trans_lt down.lt_cast
  · exact (across.magnitude_le wide).trans_lt across.lt_cast

/-- With short products nothing overflows. That the reduction has a scale is known from the smaller
request. -/
theorem Ordered.expressible (ordered : r.Ordered s) {fields : Fields}
    (read : ofFields fields = .ok s) (wide : Short source.width) (high : Short source.height)
    (short : ∀ p ∈ s.products source reduction, p < 2 ^ 50)
    (resolved : r.uncheckedTarget source.toPair reduction = .ok target) :
    s.Expressible source reduction := by
  have accepted := ScaleRequest.accepted read
  right
  cases ordered with
  | @fitWidth m n =>
    simp only [products, List.forall_mem_cons] at short
    exact quotient_lt_overflow (by positivity) wide.pos short.2.1
  | @fitHeight m n =>
    simp only [products, List.forall_mem_cons] at short
    exact quotient_lt_overflow (by positivity) high.pos short.2.1
  | fill across down => trivial
  | @fitInside m m' n n' =>
    simp only [products, List.forall_mem_cons] at short
    obtain ⟨box_narrow, box_low, -⟩ := short
    cases accepted with
    | fitInside box_wide box_high =>
      have across : Short m' := ⟨box_wide, by exact_mod_cast box_narrow⟩
      have down : Short n' := ⟨box_high, by exact_mod_cast box_low⟩
      refine ⟨quotient_lt_overflow (by positivity) wide.pos box_narrow,
        quotient_lt_overflow (by positivity) high.pos box_low, ?_⟩
      have longest : ((max source.width source.height : Nat) : ℚ) < 2 ^ 50 := by
        exact_mod_cast max_lt wide.lt high.lt
      have factor := magnitude_smaller_lt across wide down high
      calc _ < (2 : ℚ) ^ 50 * 2 ^ 50 :=
            mul_lt_mul'' longest factor (Nat.cast_nonneg _) (magnitude_nonneg _)
        _ = 2 ^ 100 := by rw [← pow_add]
        _ < Format.binary64.overflow := Real64.two_pow_lt_overflow (by decide)
  | @percent x y =>
    simp only [products, List.forall_mem_cons] at short
    obtain ⟨inRange, -⟩ := percent_eq_ok resolved
    have positive := percent_pos read rfl
    refine ⟨inRange, ?_⟩
    rw [← abs_number, abs_of_pos positive]
    rcases Nat.le_total source.width source.height with le | le
    · rw [max_eq_right le]
      exact short_lt_overflow short.2.1
    · rw [max_eq_left le]
      exact short_lt_overflow short.1

end Targets

end ScaleRequest

/-- Where a request has a target, every accepted request of the mode that asks for at least as much
has one too, and it is at least as wide and as high. -/
theorem larger_requests_have_larger_targets {small large : Fields} {r s : ScaleRequest}
    (read : ScaleRequest.ofFields small = .ok r) (readLarger : ScaleRequest.ofFields large = .ok s)
    (atMost : r.AtMost s) {source : Size} (wide : 0 < source.width) (high : 0 < source.height)
    (narrow : source.width < 2 ^ 50) (low : source.height < 2 ^ 50) {reduction : Reduction}
    (short : ∀ p ∈ s.products source reduction, p < 2 ^ 50) {target : Int × Int}
    (resolved : r.target source.toPair reduction = .ok target) :
    ∃ larger, s.target source.toPair reduction = .ok larger ∧
      target.1 ≤ larger.1 ∧ target.2 ≤ larger.2 := by
  have accepted := ScaleRequest.accepted readLarger
  have ordered := atMost.ordered (ScaleRequest.accepted read) accepted
  obtain ⟨-, unchecked⟩ := ScaleRequest.unchecked_of_target resolved
  obtain ⟨width_pos, height_pos⟩ := r.target_pos resolved
  have expressible := ordered.expressible readLarger ⟨wide, narrow⟩ ⟨high, low⟩ short unchecked
  have nonempty : source.isEmpty = false := by
    simp only [Size.isEmpty, Bool.or_eq_false_iff, beq_eq_false_iff_ne]
    omega
  obtain ⟨⟨width, height⟩, uncheckedLarger⟩ :=
    (accepted.uncheckedTarget_succeeds (by omega) (by omega) nonempty reduction).mpr expressible
  obtain ⟨across, down⟩ := ordered.uncheckedTarget_mono wide high unchecked uncheckedLarger
  dsimp only at across down
  refine ⟨(width, height), ?_, across, down⟩
  obtain ⟨width, rfl⟩ := Int.eq_ofNat_of_zero_le (by omega : 0 ≤ width)
  obtain ⟨height, rfl⟩ := Int.eq_ofNat_of_zero_le (by omega : 0 ≤ height)
  exact ScaleRequest.target_of_pos wide high uncheckedLarger (by omega) (by omega)

theorem larger_requests_have_larger_targets_in_boxes :
    ∃ r s larger, ScaleRequest.ofFields [("mode", .text "aspect_fit_inside"), ("width", .whole 13),
        ("height", .whole 59)] = .ok r ∧
      ScaleRequest.ofFields [("mode", .text "aspect_fit_inside"), ("width", .whole 14),
        ("height", .whole 59)] = .ok s ∧
      r.AtMost s ∧ r.target (6, 27) .none = .ok (13, 58) ∧
      s.target (6, 27) .none = .ok larger ∧ 13 ≤ larger.1 ∧ 58 ≤ larger.2 := by
  have read : ScaleRequest.ofFields [("mode", .text "aspect_fit_inside"), ("width", .whole 13),
      ("height", .whole 59)] = .ok ⟨.fitInside, some (.whole 13), some (.whole 59), none⟩ := rfl
  have readLarger : ScaleRequest.ofFields [("mode", .text "aspect_fit_inside"),
      ("width", .whole 14), ("height", .whole 59)] =
      .ok ⟨.fitInside, some (.whole 14), some (.whole 59), none⟩ := rfl
  have atMost : (⟨.fitInside, some (.whole 13), some (.whole 59), none⟩ : ScaleRequest).AtMost
      ⟨.fitInside, some (.whole 14), some (.whole 59), none⟩ := by
    refine ⟨rfl, .cons ?_ (.cons ?_ .nil)⟩
    · exact .some (.whole (by decide))
    · exact .some (.whole (by decide))
  have wide : 0 < (⟨6, 27⟩ : Size).width := by decide
  have high : 0 < (⟨6, 27⟩ : Size).height := by decide
  have resolved : (⟨.fitInside, some (.whole 13), some (.whole 59), none⟩ : ScaleRequest).target
      (⟨6, 27⟩ : Size).toPair .none = .ok (13, 58) := rfl
  obtain ⟨larger, found, across, down⟩ := larger_requests_have_larger_targets read readLarger
    atMost wide high (by decide) (by decide)
    (by simp [ScaleRequest.products]; norm_num) resolved
  exact ⟨_, _, larger, read, readLarger, atMost, resolved, found, across, down⟩

end RasterEdit
