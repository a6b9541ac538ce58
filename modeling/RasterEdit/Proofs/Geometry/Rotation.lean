import RasterEdit.Edit.Rotate
import RasterEdit.Proofs.Binary.Angle
import RasterEdit.Proofs.Geometry.Elimination

/-!
# Rotations can be inverted

The forward matrix of a rotation is, up to the signs of zeros, a turn followed by a move. Rounding
cannot make a pivot of its elimination vanish: the two products that are subtracted in the second
step have opposite signs, and the third row only ever changes by vanishing amounts.
-/

set_option autoImplicit false

namespace RasterEdit

open Binary

namespace Rotation

/-! ## Solvable turns -/

section Elimination

variable {a b x c d y u v w : Real64} {ra rb rc : List Real64}

private theorem solvable_two (leadNonzero : d.isZero = false) (third : Vanishes v)
    (lastNonzero : w.isZero = false) :
    Matrix.Solvable 2 [⟨[d, y], rb⟩, ⟨[v, w], rc⟩] := by
  refine .succ (Matrix.takePivot_first (lt_abs_of_vanishes third d)) leadNonzero ?_
  refine .succ (Matrix.takePivot_nil _) ?_ (Matrix.solvable_zero _)
  have factor : Vanishes (v / d * y) := (third.div leadNonzero).mul y
  exact isZero_add_of_vanishes (by decide) lastNonzero factor.neg

/-- Elimination by a turn goes through once its second pivot is known not to vanish. -/
private theorem solvable_three {first : Matrix.Equation Real64}
    {rest : List (Matrix.Equation Real64)}
    (chosen : Matrix.takePivot first rest =
      (⟨[a, b, x], ra⟩, [⟨[c, d, y], rb⟩, ⟨[u, v, w], rc⟩]))
    (leadNonzero : a.isZero = false) (secondNonzero : (d - c / a * b).isZero = false)
    (thirdLead : Vanishes u) (third : Vanishes v) (lastNonzero : w.isZero = false) :
    Matrix.Solvable 3 (first :: rest) := by
  refine .succ chosen leadNonzero ?_
  have factor : Vanishes (u / a) := thirdLead.div leadNonzero
  refine solvable_two secondNonzero ?_ ?_
  · exact third.add (by decide) (factor.mul b).neg
  · exact isZero_add_of_vanishes (by decide) lastNonzero (factor.mul x).neg

end Elimination

/-- A turn and a move, up to the signs of zeros. -/
inductive Turns (cosine sine : Real64) : Matrix Real64 → Prop where
  | intro {a b x c d y u v w : Real64} (upperLeft : Same a cosine) (upperRight : Same b (-sine))
      (lowerLeft : Same c sine) (lowerRight : Same d cosine) (thirdLead : Vanishes u)
      (third : Vanishes v) (lastNonzero : w.isZero = false) :
      Turns cosine sine [[a, b, x], [c, d, y], [u, v, w]]

/-- A number and a subtrahend of the opposite sign do not cancel. -/
private theorem isZero_sub_of_leans {x y : Real64} {negative : Bool} (left : Leans negative x)
    (nonzero : x.isZero = false) (right : Leans (!negative) y) : (x - y).isZero = false := by
  cases x with
  | nan => rfl
  | signed s rank h =>
    have large : rank ≠ 0 := by simpa [isZero] using nonzero
    obtain rfl : s = negative := left.resolve_left large
    have opposite : Leans s (-y) := by simpa using right.neg
    exact isZero_add_of_leans (by decide) h large opposite

/-- The first pivot is a cosine or a sine that is not zero, the greater of the two. The second pivot
is `c + s (s / c)` or `-(s + c (c / s))`, a sum of terms with equal signs. -/
theorem Turns.solvable {cosine sine : Real64} {m : Matrix Real64} (turns : Turns cosine sine m)
    (cosineFinite : cosine.isFinite = true) (sineFinite : sine.isFinite = true)
    (regular : cosine.isZero = false ∨ sine.isZero = false) :
    Matrix.Solvable 3 (List.zipWith Matrix.Equation.mk m (Matrix.identity 3)) := by
  obtain @⟨a, b, x, c, d, y, u, v, w, upperLeft, upperRight, lowerLeft, lowerRight, thirdLead,
    third, lastNonzero⟩ := turns
  have cosineSign := Leans.isNegative cosine
  have sineSign := Leans.isNegative sine
  generalize cosine.isNegative = p at *
  generalize sine.isNegative = q at *
  cases below : lt a.abs c.abs with
  | false =>
    have nonzero : cosine.isZero = false := by
      by_contra zero
      rw [Bool.not_eq_false] at zero
      have sineNonzero := regular.resolve_left (by rw [zero]; decide)
      rw [lowerLeft.eq_of_nonzero sineNonzero,
        lt_abs_of_isZero (upperLeft.isZero zero) sineFinite sineNonzero] at below
      cases below
    obtain rfl := upperLeft.eq_of_nonzero nonzero
    obtain rfl := lowerRight.eq_of_nonzero nonzero
    have product : Leans (!p) (c / d * b) := by
      have leans := ((sineSign.same lowerLeft).div cosineSign nonzero).mul
        (sineSign.neg.same upperRight)
      cases p <;> cases q <;> exact leans
    exact solvable_three (Matrix.takePivot_first_of_three below (lt_abs_of_vanishes thirdLead _))
      nonzero (isZero_sub_of_leans cosineSign nonzero product) thirdLead third lastNonzero
  | true =>
    have nonzero : sine.isZero = false := by
      by_contra zero
      rw [Bool.not_eq_false] at zero
      rw [lt_abs_of_vanishes (.inr (lowerLeft.isZero zero))] at below
      cases below
    obtain rfl := lowerLeft.eq_of_nonzero nonzero
    obtain rfl := upperRight.eq_of_nonzero (by rw [isZero_neg]; exact nonzero)
    have product : Leans (!!q) (a / c * d) := by
      have leans := ((cosineSign.same upperLeft).div sineSign nonzero).mul
        (cosineSign.same lowerRight)
      cases p <;> cases q <;> exact leans
    exact solvable_three (Matrix.takePivot_second_of_three below (lt_abs_of_vanishes thirdLead _))
      nonzero (isZero_sub_of_leans sineSign.neg (by rw [isZero_neg]; exact nonzero) product)
      thirdLead third lastNonzero

/-! ## The forward matrix -/

private theorem same_first {x y z : Real64} (finite : x.isFinite = true) (second : y.isZero = true)
    (third : z.isZero = true) : Same (x + y + z) x := by
  have step := add_zero_same (by decide) finite second
  exact (add_zero_same (by decide) (step.isFinite finite) third).trans step

private theorem same_second {x y z : Real64} (first : x.isZero = true) (finite : y.isFinite = true)
    (third : z.isZero = true) : Same (x + y + z) y := by
  rw [add_comm x y]
  exact same_first finite first third

private theorem same_third {x y z : Real64} (first : x.isZero = true) (second : y.isZero = true)
    (finite : z.isFinite = true) : Same (x + y + z) z := by
  have step : Same (x + y) y := by
    rw [add_comm x y]
    exact add_zero_same (by decide) (isFinite_of_isZero second) first
  rw [add_comm (x + y) z]
  exact add_zero_same (by decide) finite (step.isZero second)

private theorem one_mul_of_isFinite {x : Real64} (finite : x.isFinite = true) : 1 * x = x :=
  (mul_comm 1 x).trans (Real64.mul_one_of_isFinite finite)

private theorem isZero_zero_mul {x : Real64} (finite : x.isFinite = true) :
    (0 * x).isZero = true :=
  isZero_mul rfl finite

private theorem isZero_mul_zero {x : Real64} (finite : x.isFinite = true) :
    (x * 0).isZero = true := by
  rw [mul_comm]
  exact isZero_zero_mul finite

private theorem isFinite_neg (x : Real64) : (-x).isFinite = x.isFinite := by
  cases x <;> rfl

/-- A turn about the origin, moved to the canvas centre. -/
theorem shift_mul_turn {cosine sine dx dy : Real64} (cosineFinite : cosine.isFinite = true)
    (sineFinite : sine.isFinite = true) (dxFinite : dx.isFinite = true)
    (dyFinite : dy.isFinite = true) :
    ∃ a b x c d y u v w : Real64,
      (shift dx dy).mul (turn cosine sine) = [[a, b, x], [c, d, y], [u, v, w]] ∧
      (Same a cosine ∧ Same b (-sine) ∧ Same x dx) ∧ (Same c sine ∧ Same d cosine ∧ Same y dy) ∧
      u.isZero = true ∧ v.isZero = true ∧ Same w 1 := by
  have negFinite : (-sine).isFinite = true := by rw [isFinite_neg]; exact sineFinite
  refine ⟨1 * cosine + 0 * sine + dx * 0, 1 * -sine + 0 * cosine + dx * 0, 1 * 0 + 0 * 0 + dx * 1,
    0 * cosine + 1 * sine + dy * 0, 0 * -sine + 1 * cosine + dy * 0, 0 * 0 + 1 * 0 + dy * 1,
    0 * cosine + 0 * sine + 1 * 0, 0 * -sine + 0 * cosine + 1 * 0, 0 * 0 + 0 * 0 + 1 * 1, rfl,
    ⟨?_, ?_, ?_⟩, ⟨?_, ?_, ?_⟩, ?_, ?_, ?_⟩
  · rw [one_mul_of_isFinite cosineFinite]
    exact same_first cosineFinite (isZero_zero_mul sineFinite) (isZero_mul_zero dxFinite)
  · rw [one_mul_of_isFinite negFinite]
    exact same_first negFinite (isZero_zero_mul cosineFinite) (isZero_mul_zero dxFinite)
  · rw [mul_comm dx, one_mul_of_isFinite dxFinite]
    exact same_third rfl rfl dxFinite
  · rw [one_mul_of_isFinite sineFinite]
    exact same_second (isZero_zero_mul cosineFinite) sineFinite (isZero_mul_zero dyFinite)
  · rw [one_mul_of_isFinite cosineFinite]
    exact same_second (isZero_zero_mul negFinite) cosineFinite (isZero_mul_zero dyFinite)
  · rw [mul_comm dy, one_mul_of_isFinite dyFinite]
    exact same_third rfl rfl dyFinite
  · exact (same_third (isZero_zero_mul cosineFinite) (isZero_zero_mul sineFinite) rfl).isZero rfl
  · exact (same_third (isZero_zero_mul negFinite) (isZero_zero_mul cosineFinite) rfl).isZero rfl
  · have product : (1 : Real64) * 1 = 1 := one_mul_of_isFinite Real64.isFinite_one
    rw [product]
    exact same_third rfl rfl Real64.isFinite_one

private theorem same_first_column {x y z : Real64} (finite : x.isFinite = true)
    (second : y.isFinite = true) (third : z.isFinite = true) : Same (x * 1 + y * 0 + z * 0) x := by
  rw [mul_comm x, one_mul_of_isFinite finite]
  exact same_first finite (isZero_mul_zero second) (isZero_mul_zero third)

private theorem same_second_column {x y z : Real64} (first : x.isFinite = true)
    (finite : y.isFinite = true) (third : z.isFinite = true) : Same (x * 0 + y * 1 + z * 0) y := by
  rw [mul_comm y, one_mul_of_isFinite finite]
  exact same_second (isZero_mul_zero first) finite (isZero_mul_zero third)

theorem forward_turns {cosine sine : Real64} (source canvas : Real64 × Real64)
    (cosineFinite : cosine.isFinite = true) (sineFinite : sine.isFinite = true)
    (sourceFinite : source.1.isFinite = true ∧ source.2.isFinite = true)
    (canvasFinite : canvas.1.isFinite = true ∧ canvas.2.isFinite = true) :
    Turns cosine sine (forward source canvas cosine sine) := by
  obtain ⟨a, b, x, c, d, y, u, v, w, product, ⟨sameA, sameB, sameX⟩, ⟨sameC, sameD, sameY⟩, zeroU,
    zeroV, sameW⟩ := shift_mul_turn cosineFinite sineFinite canvasFinite.1 canvasFinite.2
  have negFinite : (-sine).isFinite = true := by rw [isFinite_neg]; exact sineFinite
  have finiteA := sameA.isFinite cosineFinite
  have finiteB := sameB.isFinite negFinite
  have finiteC := sameC.isFinite sineFinite
  have finiteD := sameD.isFinite cosineFinite
  have finiteX := sameX.isFinite canvasFinite.1
  have finiteY := sameY.isFinite canvasFinite.2
  have finiteW := sameW.isFinite Real64.isFinite_one
  have finiteU := isFinite_of_isZero zeroU
  have finiteV := isFinite_of_isZero zeroV
  rw [← isFinite_neg, ← isFinite_neg source.2] at sourceFinite
  have equation : forward source canvas cosine sine =
      [[a * 1 + b * 0 + x * 0, a * 0 + b * 1 + x * 0, a * -source.1 + b * -source.2 + x * 1],
        [c * 1 + d * 0 + y * 0, c * 0 + d * 1 + y * 0, c * -source.1 + d * -source.2 + y * 1],
        [u * 1 + v * 0 + w * 0, u * 0 + v * 1 + w * 0, u * -source.1 + v * -source.2 + w * 1]] := by
    rw [forward, product]
    rfl
  rw [equation]
  constructor
  · exact (same_first_column finiteA finiteB finiteX).trans sameA
  · exact (same_second_column finiteA finiteB finiteX).trans sameB
  · exact (same_first_column finiteC finiteD finiteY).trans sameC
  · exact (same_second_column finiteC finiteD finiteY).trans sameD
  · exact .inr ((same_first_column finiteU finiteV finiteW).isZero zeroU)
  · exact .inr ((same_second_column finiteU finiteV finiteW).isZero zeroV)
  · have first := isZero_mul zeroU sourceFinite.1
    have second := isZero_mul zeroV sourceFinite.2
    have last : Same (u * -source.1 + v * -source.2 + w * 1) w := by
      rw [mul_comm w, one_mul_of_isFinite finiteW]
      exact same_third first second finiteW
    rw [(last.trans sameW).eq_of_nonzero Real64.isZero_one]
    exact Real64.isZero_one

end Rotation

end RasterEdit
