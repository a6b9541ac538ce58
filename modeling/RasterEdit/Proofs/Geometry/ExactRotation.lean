import Mathlib.Algebra.Order.Round
import Mathlib.Data.Rat.Floor
import Mathlib.Tactic.Linarith
import Mathlib.Tactic.Ring
import RasterEdit.Geometry.Rotation
import RasterEdit.Proofs.Geometry.Canvas

/-!
# Rotations in exact numbers

Canvas sizes and forward matrices are computed by the same steps over any kind of number. Here the
numbers are those of an ordered field, so that nothing but the canvas sides is ever rounded.
-/

set_option autoImplicit false

namespace RasterEdit

/-- The operations of an ordered field, without any rounding. It is no instance, as it would offer a
second way to the same operations. -/
@[reducible] def Scalar.exact (K : Type) [Field K] [LinearOrder K] : Scalar K where
  magnitude := abs
  isZero x := decide (x = 0)
  isLess x y := decide (x < y)

/-! ## Pixels -/

/-- The steps of rounding to pixels, over numbers that can be cut down to integers. -/
def nearestPixel {α : Type} [Scalar α] (half : α) (floor? : α → Option Int) (isNegative : α → Bool)
    (x : α) : Option Int :=
  (floor? (Scalar.magnitude x + half)).map fun n => if isNegative x then -n else n

/-- Over binary64 these are the steps that are taken. -/
theorem roundHalfAway_eq_ok_iff {x : Real64} {n : Int} : roundHalfAway x = .ok n ↔
    nearestPixel Real64.half Binary.floor? Binary.isNegative x = some n := by
  have steps : roundHalfAway x = (integral Binary.floor? (x.abs + Real64.half)).map fun m =>
      if x.isNegative then -m else m := by
    rw [roundHalfAway]
    cases integral Binary.floor? (x.abs + Real64.half) with
    | error fault => rfl
    | ok m =>
      cases x with
      | nan => rfl
      | signed s rank h => cases s <;> rfl
  have cut : (Scalar.magnitude x + Real64.half : Real64) = x.abs + Real64.half := rfl
  rw [steps, nearestPixel, cut, integral]
  cases Binary.floor? (x.abs + Real64.half) with
  | none => simp [Except.map]
  | some m => simp [Except.map]

section Exact

variable {K : Type} [Field K] [LinearOrder K] [IsStrictOrderedRing K] [FloorRing K]

/-- Rounding to pixels in exact numbers. -/
def exactPixel (x : K) : Option Int :=
  @nearestPixel K (.exact K) (1 / 2) (fun x => some ⌊x⌋) (fun x => decide (x < 0)) x

theorem exactPixel_of_nonneg {x : K} (nonneg : 0 ≤ x) : exactPixel x = some (round x) := by
  change some (if decide (x < 0) = true then -⌊|x| + 1 / 2⌋ else ⌊|x| + 1 / 2⌋) = some (round x)
  rw [abs_of_nonneg nonneg, decide_eq_false nonneg.not_gt, if_neg Bool.false_ne_true, round_eq]

end Exact

namespace Rotation

variable {K : Type} [Field K] [LinearOrder K]

/-! ## Forward matrices -/

/-- The forward matrix of a turn from one size to another, with their centres at one half. -/
def exactForward (source canvas : Int × Int) (cosine sine : K) : Matrix K :=
  @forward K (.exact K) ((source.1 : K) / 2, (source.2 : K) / 2)
    ((canvas.1 : K) / 2, (canvas.2 : K) / 2) cosine sine

/-- A matrix takes the point `(x, y)` to `(x', y')`, both in homogeneous coordinates. -/
def Maps (m : Matrix K) (x y x' y' : K) : Prop :=
  @Matrix.mul K (.exact K) m [[x], [y], [1]] = [[x'], [y'], [1]]

section Products

variable {a b p c d q u v t : K}

theorem maps_iff {x y x' y' : K} :
    Maps [[a, b, p], [c, d, q], [u, v, t]] x y x' y' ↔
      a * x + b * y + p = x' ∧ c * x + d * y + q = y' ∧ u * x + v * y + t = 1 := by
  have product : @Matrix.mul K (.exact K) [[a, b, p], [c, d, q], [u, v, t]] [[x], [y], [1]] =
      [[a * x + b * y + p * 1], [c * x + d * y + q * 1], [u * x + v * y + t * 1]] := rfl
  simp [Maps, product]

/-- A move after something else. -/
theorem shift_mul (dx dy : K) : @Matrix.mul K (.exact K) (@shift K (.exact K) dx dy)
    [[a, b, p], [c, d, q], [0, 0, 1]] =
      [[a, b, p + dx], [c, d, q + dy], [0, 0, 1]] := by
  have product : @Matrix.mul K (.exact K) (@shift K (.exact K) dx dy)
      [[a, b, p], [c, d, q], [0, 0, 1]] =
        [[1 * a + 0 * c + dx * 0, 1 * b + 0 * d + dx * 0, 1 * p + 0 * q + dx * 1],
          [0 * a + 1 * c + dy * 0, 0 * b + 1 * d + dy * 0, 0 * p + 1 * q + dy * 1],
          [0 * a + 0 * c + 1 * 0, 0 * b + 0 * d + 1 * 0, 0 * p + 0 * q + 1 * 1]] := rfl
  simp [product]

/-- A move before something else. -/
theorem mul_shift (dx dy : K) : @Matrix.mul K (.exact K) [[a, b, p], [c, d, q], [0, 0, 1]]
    (@shift K (.exact K) dx dy) =
      [[a, b, a * dx + b * dy + p], [c, d, c * dx + d * dy + q], [0, 0, 1]] := by
  have product : @Matrix.mul K (.exact K) [[a, b, p], [c, d, q], [0, 0, 1]]
      (@shift K (.exact K) dx dy) =
        [[a * 1 + b * 0 + p * 0, a * 0 + b * 1 + p * 0, a * dx + b * dy + p * 1],
          [c * 1 + d * 0 + q * 0, c * 0 + d * 1 + q * 0, c * dx + d * dy + q * 1],
          [0 * 1 + 0 * 0 + 1 * 0, 0 * 0 + 0 * 1 + 1 * 0, 0 * dx + 0 * dy + 1 * 1]] := rfl
  simp [product]

end Products

/-- A turn and a move. -/
theorem exactForward_eq (source canvas : Int × Int) (cosine sine : K) :
    exactForward source canvas cosine sine =
      [[cosine, -sine, cosine * -(source.1 / 2) + -sine * -(source.2 / 2) + canvas.1 / 2],
        [sine, cosine, sine * -(source.1 / 2) + cosine * -(source.2 / 2) + canvas.2 / 2],
        [0, 0, 1]] := by
  have turned := shift_mul (a := cosine) (b := -sine) (p := 0) (c := sine) (d := cosine) (q := 0)
    (canvas.1 / 2) (canvas.2 / 2)
  rw [zero_add, zero_add] at turned
  exact (congrArg (@Matrix.mul K (.exact K) · _) turned).trans (mul_shift ..)

/-- Turned about the source centre, moved to the canvas centre. -/
theorem exactForward_maps (source canvas : Int × Int) (cosine sine x y : K) :
    Maps (exactForward source canvas cosine sine) x y
      (canvas.1 / 2 + (cosine * (x - source.1 / 2) - sine * (y - source.2 / 2)))
      (canvas.2 / 2 + (sine * (x - source.1 / 2) + cosine * (y - source.2 / 2))) := by
  rw [exactForward_eq, maps_iff]
  refine ⟨?_, ?_, ?_⟩
  · ring
  · ring
  · ring

/-! ## Canvases -/

/-- The steps from a rectangle to its canvas, over numbers that can be cut down to integers. -/
def roundedExtents {α : Type} [Scalar α] (half : α) (floor? : α → Option Int)
    (isNegative : α → Bool) (width height cosine sine : α) : Option (Int × Int) := do
  let (across, down) := extents width height cosine sine
  return (← nearestPixel half floor? isNegative across, ← nearestPixel half floor? isNegative down)

/-- Over binary64 these are the steps that are taken, once the angle and the sides are read. -/
theorem canvasSize_eq_ok_iff {width height degrees : Number} {canvas : Int × Int} :
    canvasSize width height degrees = .ok canvas ↔ ∃ angle w h,
      wrapped degrees = .ok angle ∧ width.toReal = .ok w ∧ height.toReal = .ok h ∧
        roundedExtents Real64.half Binary.floor? Binary.isNegative w h angle.radians.cos
          angle.radians.sin = some canvas := by
  have returned (sides : Int × Int) : pure sides = (Except.ok canvas : Result (Int × Int)) ↔
      sides = canvas := Except.ok.injEq .. |>.to_iff
  simp only [canvasSize, roundedExtents, Binary.cos, Binary.sin, Result.bind_eq_ok, returned,
    roundHalfAway_eq_ok_iff, Option.bind_eq_bind, Option.bind_eq_some_iff, Option.pure_def,
    Option.some.injEq, exists_and_left]

/-- Canvas sides in exact numbers. -/
def exactCanvas [FloorRing K] (width height cosine sine : K) : Option (Int × Int) :=
  @roundedExtents K (.exact K) (1 / 2) (fun x => some ⌊x⌋) (fun x => decide (x < 0)) width height
    cosine sine

variable [IsStrictOrderedRing K]

section Extents

variable {cosine sine : K} (unit : cosine ^ 2 + sine ^ 2 = 1)

include unit

theorem abs_le_one_of_unit : |cosine| ≤ 1 ∧ |sine| ≤ 1 := by
  constructor
  · exact abs_le_one_iff_mul_self_le_one.mpr (by nlinarith [sq_nonneg sine])
  · exact abs_le_one_iff_mul_self_le_one.mpr (by nlinarith [sq_nonneg cosine])

/-- The sides of the right triangle over the diameter are together no shorter than it. -/
theorem one_le_abs_add_abs : 1 ≤ |cosine| + |sine| := by
  obtain ⟨cosineLe, sineLe⟩ := abs_le_one_of_unit unit
  calc 1 = |cosine| * |cosine| + |sine| * |sine| := by
        rw [abs_mul_abs_self, abs_mul_abs_self, ← sq, ← sq, unit]
    _ ≤ |cosine| * 1 + |sine| * 1 := by gcongr
    _ = |cosine| + |sine| := by ring

/-- Extents are between the lesser side and the sum of the sides. -/
theorem extent_bounds {a b : K} (left : 0 ≤ a) (right : 0 ≤ b) :
    min a b ≤ a * |cosine| + b * |sine| ∧ a * |cosine| + b * |sine| ≤ a + b := by
  obtain ⟨cosineLe, sineLe⟩ := abs_le_one_of_unit unit
  constructor
  · calc min a b ≤ min a b * (|cosine| + |sine|) :=
          le_mul_of_one_le_right (le_min left right) (one_le_abs_add_abs unit)
      _ = min a b * |cosine| + min a b * |sine| := mul_add ..
      _ ≤ a * |cosine| + b * |sine| := by gcongr <;> simp
  · calc a * |cosine| + b * |sine| ≤ a * 1 + b * 1 := by gcongr
      _ = a + b := by ring

end Extents

/-- A turned offset stays within half of the extent. -/
theorem abs_turned_le {a b x y : K} (inX : |x| ≤ a / 2) (inY : |y| ≤ b / 2) (p q : K) :
    |p * x + q * y| ≤ (a * |p| + b * |q|) / 2 :=
  calc |p * x + q * y| ≤ |p| * |x| + |q| * |y| := by
        rw [← abs_mul, ← abs_mul]
        exact abs_add_le ..
    _ ≤ |p| * (a / 2) + |q| * (b / 2) := by gcongr
    _ = (a * |p| + b * |q|) / 2 := by ring

section Canvas

variable [FloorRing K]

theorem round_between {x : K} {m n : Int} (low : m ≤ x) (high : x ≤ n) :
    m ≤ round x ∧ round x ≤ n := by
  rw [round_eq]
  constructor
  · rw [Int.le_floor]
    linarith
  · rw [← Int.lt_add_one_iff, Int.floor_lt]
    push_cast
    linarith

theorem exactCanvas_eq {width height cosine sine : K}
    (across : 0 ≤ width * |cosine| + height * |sine|)
    (down : 0 ≤ height * |cosine| + width * |sine|) :
    exactCanvas width height cosine sine =
      some (round (width * |cosine| + height * |sine|),
        round (height * |cosine| + width * |sine|)) := by
  change (do
    let a ← exactPixel (width * |cosine| + height * |sine|)
    let b ← exactPixel (height * |cosine| + width * |sine|)
    return (a, b)) = _
  rw [exactPixel_of_nonneg across, exactPixel_of_nonneg down]
  rfl

/-- A coordinate that is off the centre by at most half of an extent leaves the rounded extent by at
most a quarter on either side. -/
theorem quarter_of_half {extent offset : K} (off : |offset| ≤ extent / 2) :
    -1 / 4 ≤ (round extent : K) / 2 + offset ∧
      (round extent : K) / 2 + offset ≤ round extent + 1 / 4 := by
  obtain ⟨below, above⟩ := abs_le.mp off
  obtain ⟨less, more⟩ := abs_le.mp (abs_sub_round extent)
  constructor <;> linarith

/-- Every point of the source is taken to the canvas or at most a quarter of a pixel off. -/
theorem exactForward_near {width height x y : K} (cosine sine : K) (source : Int × Int)
    (width_eq : (source.1 : K) = width) (height_eq : (source.2 : K) = height)
    (inX : |x - width / 2| ≤ width / 2) (inY : |y - height / 2| ≤ height / 2) :
    let across := round (width * |cosine| + height * |sine|)
    let down := round (height * |cosine| + width * |sine|)
    ∃ x' y' : K, Maps (exactForward source (across, down) cosine sine) x y x' y' ∧
      (-1 / 4 ≤ x' ∧ x' ≤ across + 1 / 4) ∧ -1 / 4 ≤ y' ∧ y' ≤ down + 1 / 4 := by
  intro across down
  have mapped := exactForward_maps source (across, down) cosine sine x y
  rw [width_eq, height_eq] at mapped
  refine ⟨_, _, mapped, quarter_of_half ?_, quarter_of_half ?_⟩
  · have turned := abs_turned_le inX inY cosine (-sine)
    rwa [abs_neg, neg_mul, ← sub_eq_add_neg] at turned
  · have turned := abs_turned_le inX inY sine cosine
    rwa [add_comm (_ * |sine|)] at turned

end Canvas

/-- In exact numbers, for a cosine and a sine of any angle and a source that is not empty: the
canvas has sides between the lesser side of the source and the sum of both, so it is not empty
either; the forward matrix takes every point of the source to one that is on the canvas or at most a
quarter of a pixel off, and the centre to the centre. -/
theorem turned_source_fits_canvas [FloorRing K] {cosine sine : K}
    (unit : cosine ^ 2 + sine ^ 2 = 1) {width height : Nat} (wide : 1 ≤ width) (high : 1 ≤ height) :
    ∃ across down : Int,
      exactCanvas (width : K) height cosine sine = some (across, down) ∧
      (∀ x y : K, 0 ≤ x → x ≤ width → 0 ≤ y → y ≤ height → ∃ x' y' : K,
        Maps (exactForward (width, height) (across, down) cosine sine) x y x' y' ∧
          (-1 / 4 ≤ x' ∧ x' ≤ across + 1 / 4) ∧ -1 / 4 ≤ y' ∧ y' ≤ down + 1 / 4) ∧
      Maps (exactForward (width, height) (across, down) cosine sine) (width / 2) (height / 2)
        (across / 2) (down / 2) ∧
      (min width height ≤ across ∧ across ≤ width + height ∧ 0 < across) ∧
      min width height ≤ down ∧ down ≤ width + height ∧ 0 < down := by
  have widthNonneg : (0 : K) ≤ width := Nat.cast_nonneg width
  have heightNonneg : (0 : K) ≤ height := Nat.cast_nonneg height
  obtain ⟨acrossLow, acrossHigh⟩ := extent_bounds unit widthNonneg heightNonneg
  obtain ⟨downLow, downHigh⟩ := extent_bounds unit heightNonneg widthNonneg
  have acrossNonneg := (le_min widthNonneg heightNonneg).trans acrossLow
  have downNonneg := (le_min heightNonneg widthNonneg).trans downLow
  have acrossBetween := round_between (K := K) (m := min width height) (n := width + height)
    (by push_cast; exact acrossLow) (by push_cast; exact acrossHigh)
  have downBetween := round_between (K := K) (m := min height width) (n := height + width)
    (by push_cast; exact downLow) (by push_cast; exact downHigh)
  refine ⟨_, _, exactCanvas_eq acrossNonneg downNonneg, ?_, ?_, by omega, by omega⟩
  · intro x y xLow xHigh yLow yHigh
    exact exactForward_near cosine sine (width, height) (Int.cast_natCast width)
      (Int.cast_natCast height) (abs_le.mpr ⟨by linarith, by linarith⟩)
      (abs_le.mpr ⟨by linarith, by linarith⟩)
  · have centre := exactForward_maps (width, height) (round (width * |cosine| + height * |sine|),
      round (height * |cosine| + width * |sine|)) cosine sine (width / 2) (height / 2)
    simpa using centre

theorem turned_source_fits_canvas_of_five :
    (3 / 5 : ℚ) ^ 2 + (4 / 5) ^ 2 = 1 ∧
    exactCanvas ((3 : Nat) : ℚ) (2 : Nat) (3 / 5) (4 / 5) = some (3, 4) ∧
    (∃ x y : ℚ, Maps (exactForward (3, 2) (3, 4) (3 / 5 : ℚ) (4 / 5)) 3 0 x y ∧
      x ≤ 3 + 1 / 4 ∧ -1 / 4 ≤ y) ∧
    Maps (exactForward (3, 2) (3, 4) (3 / 5 : ℚ) (4 / 5)) (3 / 2) (2 / 2) (3 / 2) (4 / 2) := by
  have unit : (3 / 5 : ℚ) ^ 2 + (4 / 5) ^ 2 = 1 := by norm_num
  obtain ⟨across, down, sides, near, centre, -⟩ :=
    @turned_source_fits_canvas ℚ _ _ _ _ _ _ unit 3 2 (by decide) (by decide)
  have rounded : exactCanvas ((3 : Nat) : ℚ) (2 : Nat) (3 / 5) (4 / 5) = some (3, 4) := by
    decide +kernel
  obtain ⟨rfl, rfl⟩ := Prod.mk.inj (Option.some.inj (rounded.symm.trans sides))
  obtain ⟨x, y, mapped, ⟨-, right⟩, top, -⟩ := near 3 0 (by norm_num) (by norm_num) (by norm_num)
    (by norm_num)
  exact ⟨unit, rounded, ⟨x, y, mapped, right, top⟩, centre⟩

end Rotation

end RasterEdit
