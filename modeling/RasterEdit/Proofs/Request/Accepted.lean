import RasterEdit.Proofs.Binary.Overflow
import RasterEdit.Proofs.Geometry.Lengths
import RasterEdit.Request.Crop
import RasterEdit.Request.Rotate
import RasterEdit.Request.Scale

/-!
# Accepted requests

What the checks of a request's fields leave: crop coordinates that are numbers without a minus sign
and at most one where they are fractions, scale targets that are there and positive, and finite
angles. A crop coordinate in pixels may still be infinite.
-/

set_option autoImplicit false

namespace RasterEdit

open Binary

/-! ## Checked records -/

namespace Checked

variable {α β : Type}

theorem toResult_eq_ok {model : String} {checked : Checked α} {a : α} :
    toResult model checked = .ok a ↔ checked = .valid a := by
  cases checked <;> simp [toResult]

theorem andThen_eq_valid {checked : Checked α} {check : α → Option String} {a : α} :
    checked.andThen check = .valid a ↔ checked = .valid a ∧ check a = none := by
  cases checked with
  | faulty errors => simp [andThen]
  | valid b =>
    simp only [andThen]
    constructor
    · intro accepted
      split at accepted
      · next passed =>
        cases accepted
        exact ⟨rfl, passed⟩
      · cases accepted
    · rintro ⟨same, passed⟩
      cases same
      rw [passed]

theorem map_eq_valid {f : α → β} {checked : Checked α} {b : β} :
    f <$> checked = .valid b ↔ ∃ a, checked = .valid a ∧ b = f a := by
  change map f checked = .valid b ↔ _
  cases checked <;> simp [map, eq_comm]

theorem seq_eq_valid {f : Checked (α → β)} {checked : Checked α} {b : β} :
    f <*> checked = .valid b ↔ ∃ g a, f = .valid g ∧ checked = .valid a ∧ b = g a := by
  change apply f (fun _ => checked) = .valid b ↔ _
  cases f <;> cases checked <;> simp [apply, eq_comm]

end Checked

namespace Field

variable {α : Type}

theorem required_eq_valid {fields : Fields} {name : String} {reader : Reader α} {a : α}
    (accepted : required fields name reader = .valid a) : ∃ d, reader d = .ok a := by
  unfold required at accepted
  split at accepted
  · cases accepted
  · next d given =>
    split at accepted
    · next read =>
      cases accepted
      exact ⟨d, read⟩
    · cases accepted

theorem withDefault_eq_valid {fields : Fields} {name : String} {default : α} {reader : Reader α}
    {a : α} (accepted : withDefault fields name default reader = .valid a) :
    a = default ∨ ∃ d, reader d = .ok a := by
  unfold withDefault at accepted
  split at accepted
  · cases accepted
    exact .inl rfl
  · exact .inr (required_eq_valid accepted)

theorem optional_eq_ok {reader : Reader α} {d : Datum} {a : α}
    (read : optional reader d = .ok (some a)) : reader d = .ok a := by
  have given (d : Datum) (mapped : (reader d).map some = .ok (some a)) : reader d = .ok a := by
    cases outcome : reader d with
    | error fault => rw [outcome] at mapped; cases mapped
    | ok b => rw [outcome] at mapped; cases mapped; rfl
  cases d with
  | null => cases read
  | _ => exact given _ read

theorem restricted_eq_ok {reader : Reader α} {check : α → Option FieldFault} {d : Datum} {a : α}
    (read : restricted reader check d = .ok a) : reader d = .ok a ∧ check a = none := by
  unfold restricted at read
  split at read
  · cases read
  · next value =>
    split at read
    · next passed =>
      cases read
      exact ⟨value, passed⟩
    · cases read

theorem integerAbove_eq_ok {bound : Nat} {d : Datum} {n : Int}
    (read : integerAbove bound d = .ok n) : (bound : Int) < n := by
  have passed := (restricted_eq_ok read).2
  split at passed
  · cases passed
  · next above => omega

theorem realAtLeast_eq_ok {bound : Nat} {d : Datum} {x : Real64}
    (read : realAtLeast bound d = .ok x) : Binary.le (Real64.ofInt bound) x = true := by
  have passed := (restricted_eq_ok read).2
  split at passed
  · assumption
  · cases passed

theorem realAbove_eq_ok {bound : Nat} {d : Datum} {x : Real64}
    (read : realAbove bound d = .ok x) : Binary.lt (Real64.ofInt bound) x = true := by
  have passed := (restricted_eq_ok read).2
  split at passed
  · assumption
  · cases passed

end Field

/-! ## Crop requests -/

/-- A number that is not below zero, so no NaN. -/
theorem Real64.of_zero_le {x : Real64} (nonneg : Binary.le (Real64.ofInt 0) x = true) :
    Leans false x ∧ x.isNaN = false := by
  cases x with
  | nan => cases nonneg
  | signed s rank h =>
    refine ⟨?_, rfl⟩
    have zero : Real64.ofInt 0 = .signed false 0 (Nat.zero_le _) := rfl
    rw [zero] at nonneg
    cases s with
    | false => exact .inr rfl
    | true =>
      left
      have ordered : compare (0 : Int) (-(rank : Int)) ≠ .gt := by
        simpa [le, compare?, key] using nonneg
      have : ¬ (0 : Int) > -(rank : Int) := fun above =>
        ordered (compare_gt_iff_gt.mpr above)
      omega

theorem Real64.magnitude_le_one {x : Real64} (nonneg : Binary.le (Real64.ofInt 0) x = true)
    (fraction : Binary.lt 1 x = false) : x.isFinite = true ∧ x.magnitude ≤ 1 := by
  obtain ⟨leans, number⟩ := of_zero_le nonneg
  cases x with
  | nan => cases number
  | signed s rank h =>
    have small : rank ≤ 1023 * 2 ^ 52 := by
      rcases leans with rfl | rfl
      · exact Nat.zero_le _
      · change Binary.lt (Binary.ofInt .binary64 1) _ = false at fraction
        rw [one_eq] at fraction
        simp only [lt, compare?, key, Bool.false_eq_true, ↓reduceIte, beq_eq_false_iff_ne, ne_eq,
          Option.some.injEq, compare_lt_iff_lt] at fraction
        omega
    have top : 1023 * 2 ^ 52 < Format.binary64.top := by decide
    refine ⟨(isFinite_signed ..).mpr (by omega), ?_⟩
    rw [← magnitude_one]
    exact Format.magnitude_mono (by decide) small

/-- Coordinates that passed their checks. -/
structure CropRequest.Accepted (r : CropRequest) : Prop where
  x_nonneg : Binary.le (Real64.ofInt 0) r.x = true
  y_nonneg : Binary.le (Real64.ofInt 0) r.y = true
  width_nonneg : Binary.le (Real64.ofInt 0) r.width = true
  height_nonneg : Binary.le (Real64.ofInt 0) r.height = true
  fractions : r.fractionFault? = none

theorem CropRequest.accepted {fields : Fields} {r : CropRequest} (read : ofFields fields = .ok r) :
    r.Accepted := by
  have coordinate {name : String} {x : Real64}
      (given : Field.withDefault fields name 0 (Field.realAtLeast 0) = .valid x) :
      Binary.le (Real64.ofInt 0) x = true := by
    rcases Field.withDefault_eq_valid given with rfl | ⟨d, read⟩
    · rfl
    · exact Field.realAtLeast_eq_ok read
  obtain ⟨whole, fractions⟩ := Checked.andThen_eq_valid.mp (Checked.toResult_eq_ok.mp read)
  obtain ⟨_, full, toHeight, -, rfl⟩ := Checked.seq_eq_valid.mp whole
  obtain ⟨_, height, toWidth, heightGiven, rfl⟩ := Checked.seq_eq_valid.mp toHeight
  obtain ⟨_, width, toY, widthGiven, rfl⟩ := Checked.seq_eq_valid.mp toWidth
  obtain ⟨_, y, toX, yGiven, rfl⟩ := Checked.seq_eq_valid.mp toY
  obtain ⟨_, x, toUnit, xGiven, rfl⟩ := Checked.seq_eq_valid.mp toX
  obtain ⟨unit, -, rfl⟩ := Checked.map_eq_valid.mp toUnit
  exact ⟨coordinate xGiven, coordinate yGiven, coordinate widthGiven, coordinate heightGiven,
    fractions⟩

theorem CropRequest.Accepted.le_one {r : CropRequest} (accepted : r.Accepted)
    (percent : r.unit = .percent) :
    ∀ v ∈ [r.x, r.y, r.width, r.height], v.isFinite = true ∧ v.magnitude ≤ 1 := by
  have fractions := accepted.fractions
  rw [fractionFault?, if_pos percent, List.findSome?_eq_none_iff] at fractions
  have fraction (name : String) {v : Real64}
      (member : (name, v) ∈ [("x", r.x), ("y", r.y), ("width", r.width), ("height", r.height)]) :
      Binary.lt 1 v = false := by
    have passed := fractions (name, v) member
    by_contra above
    rw [Bool.not_eq_false] at above
    simp [above] at passed
  intro v member
  simp only [List.mem_cons, List.not_mem_nil, or_false] at member
  rcases member with rfl | rfl | rfl | rfl
  · exact Real64.magnitude_le_one accepted.x_nonneg (fraction "x" (by simp))
  · exact Real64.magnitude_le_one accepted.y_nonneg (fraction "y" (by simp))
  · exact Real64.magnitude_le_one accepted.width_nonneg (fraction "width" (by simp))
  · exact Real64.magnitude_le_one accepted.height_nonneg (fraction "height" (by simp))

/-! ## Scale requests -/

/-- A number that is above zero, so no NaN. -/
theorem Real64.number_pos {x : Real64} (positive : Binary.lt (Real64.ofInt 0) x = true) :
    0 < x.number := by
  cases x with
  | nan => cases positive
  | signed s rank h =>
    rw [lt_iff (by decide) rfl rfl] at positive
    rwa [Real64.number_ofInt (by decide), Int.cast_zero] at positive

/-- A request with the targets that its mode needs. -/
inductive ScaleRequest.Accepted : ScaleRequest → Prop where
  | fitWidth {width : Nat} {height percent : Option Number} (width_pos : 0 < width) :
      Accepted ⟨.fitWidth, some (.whole width), height, percent⟩
  | fitHeight {height : Nat} {width percent : Option Number} (height_pos : 0 < height) :
      Accepted ⟨.fitHeight, width, some (.whole height), percent⟩
  | fill {width height : Nat} {percent : Option Number} (width_pos : 0 < width)
      (height_pos : 0 < height) :
      Accepted ⟨.fill, some (.whole width), some (.whole height), percent⟩
  | fitInside {width height : Nat} {percent : Option Number} (width_pos : 0 < width)
      (height_pos : 0 < height) :
      Accepted ⟨.fitInside, some (.whole width), some (.whole height), percent⟩
  | percent {width height : Option Number} {factor : Real64} (finite : factor.isFinite = true) :
      Accepted ⟨.percent, width, height, some (.real factor)⟩

theorem ScaleRequest.exists_of_needed {r : ScaleRequest} (complete : r.fault? = none)
    {name : String} {target : Option Number} (member : (name, target) ∈ r.needed) :
    ∃ x, target = some x := by
  have missing : (r.needed.filter (·.2.isNone)).map (·.1) = [] := by
    by_contra some
    simp only [fault?] at complete
    rw [if_pos some] at complete
    cases complete
  rw [List.map_eq_nil_iff, List.filter_eq_nil_iff] at missing
  have given := missing (name, target) member
  cases target with
  | none => exact absurd rfl given
  | some x => exact ⟨x, rfl⟩

theorem ScaleRequest.accepted {fields : Fields} {r : ScaleRequest}
    (read : ofFields fields = .ok r) : r.Accepted := by
  have side {name : String} {given : Option Number}
      (checked : Checked.map (·.map Number.whole) (Field.withDefault fields name none
        (Field.optional (Field.integerAbove 0))) = .valid given) :
      ∀ x ∈ given, ∃ n : Nat, 0 < n ∧ x = .whole n := by
    obtain ⟨value, taken, rfl⟩ := Checked.map_eq_valid.mp checked
    intro x member
    obtain ⟨n, rfl, rfl⟩ := Option.map_eq_some_iff.mp member
    rcases Field.withDefault_eq_valid taken with absent | ⟨d, read⟩
    · cases absent
    · have positive := Field.integerAbove_eq_ok (Field.optional_eq_ok read)
      refine ⟨n.toNat, by omega, ?_⟩
      rw [Int.toNat_of_nonneg (by omega)]
  obtain ⟨whole, complete⟩ := Checked.andThen_eq_valid.mp (Checked.toResult_eq_ok.mp read)
  obtain ⟨_, percent, toHeight, percentGiven, rfl⟩ := Checked.seq_eq_valid.mp whole
  obtain ⟨_, height, toWidth, heightGiven, rfl⟩ := Checked.seq_eq_valid.mp toHeight
  obtain ⟨_, width, toMode, widthGiven, rfl⟩ := Checked.seq_eq_valid.mp toWidth
  obtain ⟨mode, -, rfl⟩ := Checked.map_eq_valid.mp toMode
  obtain ⟨fraction, -, rfl⟩ := Checked.map_eq_valid.mp percentGiven
  have widths := side widthGiven
  have heights := side heightGiven
  cases mode with
  | fitWidth =>
    obtain ⟨x, rfl⟩ := exists_of_needed complete (List.Mem.head _)
    obtain ⟨n, positive, rfl⟩ := widths x rfl
    exact .fitWidth positive
  | fitHeight =>
    obtain ⟨y, rfl⟩ := exists_of_needed complete (List.Mem.head _)
    obtain ⟨n, positive, rfl⟩ := heights y rfl
    exact .fitHeight positive
  | fill =>
    obtain ⟨x, rfl⟩ := exists_of_needed complete (List.Mem.head _)
    obtain ⟨y, rfl⟩ := exists_of_needed complete (List.Mem.tail _ (List.Mem.head _))
    obtain ⟨m, acrossPos, rfl⟩ := widths x rfl
    obtain ⟨n, downPos, rfl⟩ := heights y rfl
    exact .fill acrossPos downPos
  | fitInside =>
    obtain ⟨x, rfl⟩ := exists_of_needed complete (List.Mem.head _)
    obtain ⟨y, rfl⟩ := exists_of_needed complete (List.Mem.tail _ (List.Mem.head _))
    obtain ⟨m, acrossPos, rfl⟩ := widths x rfl
    obtain ⟨n, downPos, rfl⟩ := heights y rfl
    exact .fitInside acrossPos downPos
  | percent =>
    obtain ⟨x, given⟩ := exists_of_needed complete (List.Mem.head _)
    obtain ⟨factor, rfl, rfl⟩ := Option.map_eq_some_iff.mp given
    refine .percent ?_
    by_contra infinite
    simp [fault?, needed, infinite] at complete

/-- An accepted fraction of the full size is positive. -/
theorem ScaleRequest.percent_pos {fields : Fields} {r : ScaleRequest} (read : ofFields fields = .ok r)
    {factor : Real64} (given : r.percent = some (.real factor)) : 0 < factor.number := by
  obtain ⟨whole, -⟩ := Checked.andThen_eq_valid.mp (Checked.toResult_eq_ok.mp read)
  obtain ⟨_, percent, toHeight, percentGiven, rfl⟩ := Checked.seq_eq_valid.mp whole
  obtain ⟨_, height, toWidth, -, rfl⟩ := Checked.seq_eq_valid.mp toHeight
  obtain ⟨_, width, toMode, -, rfl⟩ := Checked.seq_eq_valid.mp toWidth
  obtain ⟨mode, -, rfl⟩ := Checked.map_eq_valid.mp toMode
  obtain ⟨fraction, taken, rfl⟩ := Checked.map_eq_valid.mp percentGiven
  obtain ⟨x, rfl, same⟩ := Option.map_eq_some_iff.mp given
  cases same
  rcases Field.withDefault_eq_valid taken with absent | ⟨d, read⟩
  · cases absent
  · exact Real64.number_pos (Field.realAbove_eq_ok (Field.optional_eq_ok read))

/-! ## Rotate requests -/

theorem RotateRequest.isFinite_of_accepted {fields : Fields} {r : RotateRequest}
    (read : ofFields fields = .ok r) : r.degrees.isFinite = true := by
  obtain ⟨-, passed⟩ := Checked.andThen_eq_valid.mp (Checked.toResult_eq_ok.mp read)
  by_contra infinite
  simp [infinite] at passed

end RasterEdit
