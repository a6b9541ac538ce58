import Mathlib.Data.List.GetD
import Mathlib.Tactic.LinearCombination
import Mathlib.Tactic.NormNum
import RasterEdit.Proofs.Geometry.ExactElimination

/-!
# Inverses and sampled points in exact numbers

The inverse of a square matrix is its inverse in the sense of linear algebra, and it is refused
exactly if the determinant is zero. For an affine map of the plane the first two rows of the inverse
are the map back: they give the only point that is taken to a given one.
-/

set_option autoImplicit false

namespace RasterEdit

namespace Matrix

/-- A matrix with `n` rows and `n` columns. -/
structure IsSquare {α : Type} (n : Nat) (m : Matrix α) : Prop where
  length : m.length = n
  widths : ∀ row ∈ m, row.length = n

namespace IsSquare

variable {α : Type} {n : Nat} {m : Matrix α} (isSquare : IsSquare n m) (i : Fin n)

include isSquare

theorem lt_length : (i : Nat) < m.length := by
  rw [isSquare.length]
  exact i.isLt

theorem width : (m.getD i []).length = n := by
  rw [List.getD_eq_getElem _ _ (isSquare.lt_length i)]
  exact isSquare.widths _ (List.getElem_mem _)

end IsSquare

variable {K : Type} [Field K] [LinearOrder K] {n : Nat}

/-- The entries of the first `n` rows and columns. -/
def square (n : Nat) (m : Matrix K) := Matrix.of fun i j : Fin n => (m.getD i []).getD j 0

omit [LinearOrder K] in
@[simp] theorem square_apply (m : Matrix K) (i j : Fin n) :
    square n m i j = (m.getD i []).getD j 0 := rfl

theorem dot_eq_finset_sum {row column : List K} (width : row.length = n)
    (height : column.length = n) :
    @dot K (.exact K) row column = ∑ l : Fin n, row.getD l 0 * column.getD l 0 := by
  induction n generalizing row column with
  | zero =>
    rw [List.length_eq_zero_iff.mp width]
    rfl
  | succ n ih =>
    cases row with
    | nil => cases width
    | cons c row =>
      cases column with
      | nil => cases height
      | cons x column =>
        rw [dot_cons, ih (Nat.succ.inj width) (Nat.succ.inj height), Fin.sum_univ_succ]
        rfl

omit [LinearOrder K] in
theorem column_eq_map {m : Matrix K} {j : Nat} (widths : ∀ row ∈ m, j < row.length) :
    column m j = m.map (·.getD j 0) := by
  induction m with
  | nil => rfl
  | cons row m ih =>
    obtain ⟨inRange, widths⟩ := List.forall_mem_cons.mp widths
    rw [column_cons inRange, ih widths, List.map_cons]

/-- The product of a row and a column is an entry of the product of the tables. -/
theorem dot_column {m w : Matrix K} (left : IsSquare n m) (right : IsSquare n w) (i j : Fin n) :
    @dot K (.exact K) (m.getD i []) (column w j) = (square n m * square n w) i j := by
  have columnEq : column w j = w.map (·.getD j 0) := by
    apply column_eq_map
    intro row member
    rw [right.widths row member]
    exact j.isLt
  have height : (column w j).length = n := by rw [columnEq, List.length_map, right.length]
  rw [dot_eq_finset_sum (left.width i) height, Matrix.mul_apply]
  apply Finset.sum_congr rfl
  intro l _
  have entry := List.getD_map (l := w) (d := []) (n := l) (·.getD j 0)
  rw [List.getD_nil] at entry
  rw [columnEq, entry, square_apply, square_apply]

theorem square_identity : square n (@identity K (.exact K) n) = 1 := by
  ext i j
  simp [square, identity, Matrix.one_apply, Fin.ext_iff, List.getD_eq_getElem?_getD]

theorem isSquare_identity : IsSquare n (@identity K (.exact K) n) := by
  constructor
  · simp [identity]
  · intro row member
    obtain ⟨i, -, rfl⟩ := List.mem_map.mp member
    simp

/-! ## Inverses -/

section Inverse

variable {m : Matrix K} (isSquare : IsSquare n m)

include isSquare

theorem inverse_eq_solve : @inverse K (.exact K) m =
    @solve K (.exact K) n (List.zipWith Equation.mk m (@identity K (.exact K) n)) := by
  have squared : m.all (·.length == n) = true := by
    rw [List.all_eq_true]
    intro row member
    rw [isSquare.widths row member, beq_self_eq_true]
  simp only [inverse, isSquare.length, squared, ↓reduceIte]

/-- The equations for the inverse: the rows of the matrix against the rows of the identity. -/
theorem equations_fit : (List.zipWith Equation.mk m (@identity K (.exact K) n)).length = n ∧
    ∀ e ∈ List.zipWith Equation.mk m (@identity K (.exact K) n), e.Fits n n := by
  constructor
  · rw [List.length_zipWith, isSquare.length, isSquare_identity.length, min_self]
  · intro e member
    obtain ⟨i, inRange, rfl⟩ := List.mem_iff_getElem.mp member
    rw [List.getElem_zipWith]
    exact ⟨isSquare.widths _ (List.getElem_mem _), isSquare_identity.widths _ (List.getElem_mem _)⟩

theorem equation_mem (i : Fin n) :
    Equation.mk (m.getD i []) ((@identity K (.exact K) n).getD i []) ∈
      List.zipWith Equation.mk m (@identity K (.exact K) n) := by
  have inRange : (i : Nat) < (List.zipWith Equation.mk m (@identity K (.exact K) n)).length := by
    rw [(equations_fit isSquare).1]
    exact i.isLt
  have equation := List.getElem_mem inRange
  rw [List.getElem_zipWith] at equation
  rwa [List.getD_eq_getElem _ _ (isSquare.lt_length i),
    List.getD_eq_getElem _ _ (isSquare_identity.lt_length i)]

theorem inverse_sound {w : Matrix K} (inverted : @inverse K (.exact K) m = .ok w) :
    IsSquare n w ∧ square n m * square n w = 1 := by
  rw [inverse_eq_solve isSquare] at inverted
  obtain ⟨count, fits⟩ := equations_fit isSquare
  have shape := @solve_shape K (.exact K) n n _ w (fun e member => (fits e member).values) inverted
  have inverseSquare : IsSquare n w := ⟨shape.1, shape.2⟩
  refine ⟨inverseSquare, ?_⟩
  ext i j
  rw [← dot_column isSquare inverseSquare i j,
    solve_sound count fits inverted _ (equation_mem isSquare i) j j.isLt, ← square_identity]
  rfl

theorem inverse_singular {fault : MatrixFault}
    [IsStrictOrderedRing K] (failed : @inverse K (.exact K) m = .error fault) :
    fault = .singular ∧ (square n m).det = 0 := by
  rw [inverse_eq_solve isSquare] at failed
  obtain ⟨count, fits⟩ := equations_fit isSquare
  obtain ⟨rfl, x, height, ⟨t, member, proper⟩, vanish⟩ := solve_singular count fits failed
  refine ⟨rfl, Matrix.exists_mulVec_eq_zero_iff.mp ⟨fun l => x.getD l 0, ?_, ?_⟩⟩
  · intro none
    obtain ⟨l, inRange, rfl⟩ := List.mem_iff_getElem.mp member
    have zero := congrFun none ⟨l, by omega⟩
    rw [List.getD_eq_getElem _ _ inRange] at zero
    exact proper zero
  · ext i
    have equation := vanish _ (equation_mem isSquare i)
    rw [dot_eq_finset_sum (isSquare.width i) height] at equation
    exact equation

variable [IsStrictOrderedRing K]

theorem inverse_of_det_ne_zero (regular : (square n m).det ≠ 0) :
    ∃ w, @inverse K (.exact K) m = .ok w ∧ IsSquare n w ∧ square n m * square n w = 1 ∧
      square n w * square n m = 1 := by
  cases inverted : @inverse K (.exact K) m with
  | error fault => exact absurd (inverse_singular isSquare inverted).2 regular
  | ok w =>
    obtain ⟨shape, product⟩ := inverse_sound isSquare inverted
    exact ⟨w, rfl, shape, product, mul_eq_one_comm.mp product⟩

theorem inverse_of_det_eq_zero (singular : (square n m).det = 0) :
    @inverse K (.exact K) m = .error .singular := by
  cases inverted : @inverse K (.exact K) m with
  | error fault => rw [(inverse_singular isSquare inverted).1]
  | ok w =>
    have product := congrArg (·.det) (inverse_sound isSquare inverted).2
    simp [singular] at product

end Inverse

end Matrix

namespace Rotation

variable {K : Type} [Field K] [LinearOrder K]

/-! ## Sampled points -/

/-- An affine map of the plane, in homogeneous coordinates. -/
def affine (a b p c d q : K) : Matrix K := [[a, b, p], [c, d, q], [0, 0, 1]]

section Affine

variable {a b p c d q : K}

omit [LinearOrder K]

theorem isSquare_affine : Matrix.IsSquare 3 (affine a b p c d q) := ⟨rfl, by simp [affine]⟩

theorem det_affine : (Matrix.square 3 (affine a b p c d q)).det = a * d - b * c := by
  simp [Matrix.det_fin_three, affine]

theorem isUnit_affine : IsUnit (Matrix.square 3 (affine a b p c d q)) ↔ a * d - b * c ≠ 0 := by
  rw [Matrix.isUnit_iff_isUnit_det, det_affine, isUnit_iff_ne_zero]

end Affine

variable [IsStrictOrderedRing K]

/-- The six numbers that sample a regular affine map are the map back. -/
theorem sampling_affine {a b p c d q : K} (regular : a * d - b * c ≠ 0) :
    ∃ a' b' p' c' d' q' : K,
      @sampling K (.exact K) (affine a b p c d q) = .ok [a', b', p', c', d', q'] ∧
      ∀ x y x' y' : K, Maps (affine a b p c d q) x y x' y' ↔
        a' * x' + b' * y' + p' = x ∧ c' * x' + d' * y' + q' = y := by
  rw [← det_affine (p := p) (q := q)] at regular
  obtain ⟨w, inverted, ⟨count, widths⟩, right, left⟩ :=
    Matrix.inverse_of_det_ne_zero isSquare_affine regular
  obtain ⟨first, second, third, rfl⟩ := List.length_eq_three.mp count
  simp only [List.forall_mem_cons] at widths
  obtain ⟨firstWidth, secondWidth, thirdWidth, -⟩ := widths
  obtain ⟨a', b', p', rfl⟩ := List.length_eq_three.mp firstWidth
  obtain ⟨c', d', q', rfl⟩ := List.length_eq_three.mp secondWidth
  obtain ⟨u, v, t, rfl⟩ := List.length_eq_three.mp thirdWidth
  have entries (m w : Matrix K) (same : Matrix.square 3 m * Matrix.square 3 w = 1) (i j : Fin 3) :=
    congrFun (congrFun same i) j
  simp only [Matrix.mul_apply, Fin.sum_univ_three, Matrix.square_apply] at entries
  obtain ⟨⟨a₁, b₁, p₁⟩, ⟨c₁, d₁, q₁⟩, rfl, rfl, rfl⟩ :
      (a * a' + b * c' + p * u = 1 ∧ a * b' + b * d' + p * v = 0 ∧
        a * p' + b * q' + p * t = 0) ∧
      (c * a' + d * c' + q * u = 0 ∧ c * b' + d * d' + q * v = 1 ∧
        c * p' + d * q' + q * t = 0) ∧ u = 0 ∧ v = 0 ∧ t = 1 := by
    simpa [Fin.forall_fin_succ, affine] using entries _ _ right
  obtain ⟨⟨a₂, b₂, p₂⟩, c₂, d₂, q₂⟩ :
      (a' * a + b' * c = 1 ∧ a' * b + b' * d = 0 ∧ a' * p + b' * q + p' = 0) ∧
      c' * a + d' * c = 0 ∧ c' * b + d' * d = 1 ∧ c' * p + d' * q + q' = 0 := by
    simpa [Fin.forall_fin_succ, affine] using entries _ _ left
  refine ⟨a', b', p', c', d', q', ?_, ?_⟩
  · unfold sampling
    rw [inverted]
    rfl
  · intro x y x' y'
    rw [affine, maps_iff]
    constructor
    · rintro ⟨across, down, -⟩
      constructor
      · linear_combination x * a₂ + y * b₂ + p₂ - a' * across - b' * down
      · linear_combination x * c₂ + y * d₂ + q₂ - c' * across - d' * down
    · rintro ⟨across, down⟩
      refine ⟨?_, ?_, by ring⟩
      · linear_combination x' * a₁ + y' * b₁ + p₁ - a * across - b * down
      · linear_combination x' * c₁ + y' * d₁ + q₁ - c * across - d * down

/-- Points of the canvas are sampled at points of the source that lie as far apart, and its centre
at the centre of the source. -/
theorem sampling_exactForward {cosine sine : K} (unit : cosine ^ 2 + sine ^ 2 = 1)
    (source canvas : Int × Int) :
    ∃ a b p c d q : K,
      @sampling K (.exact K) (exactForward source canvas cosine sine) = .ok [a, b, p, c, d, q] ∧
      (∀ x y x' y' : K,
        ((a * x + b * y + p) - (a * x' + b * y' + p)) ^ 2 +
            ((c * x + d * y + q) - (c * x' + d * y' + q)) ^ 2 =
          (x - x') ^ 2 + (y - y') ^ 2) ∧
      a * (canvas.1 / 2) + b * (canvas.2 / 2) + p = (source.1 : K) / 2 ∧
      c * (canvas.1 / 2) + d * (canvas.2 / 2) + q = (source.2 : K) / 2 := by
  have regular : cosine * cosine - -sine * sine ≠ 0 := by
    rw [neg_mul, sub_neg_eq_add, ← sq, ← sq, unit]
    exact one_ne_zero
  obtain ⟨a, b, p, c, d, q, sampled, back⟩ := sampling_affine regular
  have forward := exactForward_eq source canvas cosine sine
  rw [← affine] at forward
  rw [← forward] at sampled back
  refine ⟨a, b, p, c, d, q, sampled, ?_, ?_⟩
  · intro x y x' y'
    have taken (x y : K) := (back _ _ x y).mpr ⟨rfl, rfl⟩
    simp only [exactForward_eq, maps_iff] at taken
    obtain ⟨across, down, -⟩ := taken x y
    obtain ⟨across', down', -⟩ := taken x' y'
    generalize a * x + b * y + p = u at *
    generalize c * x + d * y + q = v at *
    generalize a * x' + b * y' + p = u' at *
    generalize c * x' + d * y' + q = v' at *
    have turnedX : x - x' = cosine * (u - u') - sine * (v - v') := by
      linear_combination across' - across
    have turnedY : y - y' = sine * (u - u') + cosine * (v - v') := by
      linear_combination down' - down
    rw [turnedX, turnedY]
    linear_combination -((u - u') ^ 2 + (v - v') ^ 2) * unit
  · have centre := exactForward_maps source canvas cosine sine (source.1 / 2) (source.2 / 2)
    simp only [sub_self, mul_zero, add_zero] at centre
    exact (back ..).mp centre

/-- In exact numbers the six numbers of a regular affine map are the map back, so those of a turn
keep distances and take the centre of the canvas to the centre of the source. A singular matrix has
no such numbers. -/
theorem sampling_inverts_forward :
    (∀ a b p c d q : K, IsUnit (Matrix.square 3 (affine a b p c d q)) →
      ∃ a' b' p' c' d' q' : K,
        @sampling K (.exact K) (affine a b p c d q) = .ok [a', b', p', c', d', q'] ∧
        ∀ x y x' y' : K, Maps (affine a b p c d q) x y x' y' ↔
          a' * x' + b' * y' + p' = x ∧ c' * x' + d' * y' + q' = y) ∧
    (∀ (cosine sine : K), cosine ^ 2 + sine ^ 2 = 1 → ∀ source canvas : Int × Int,
      ∃ a b p c d q : K,
        @sampling K (.exact K) (exactForward source canvas cosine sine) = .ok [a, b, p, c, d, q] ∧
        (∀ x y x' y' : K,
          ((a * x + b * y + p) - (a * x' + b * y' + p)) ^ 2 +
              ((c * x + d * y + q) - (c * x' + d * y' + q)) ^ 2 =
            (x - x') ^ 2 + (y - y') ^ 2) ∧
        a * (canvas.1 / 2) + b * (canvas.2 / 2) + p = (source.1 : K) / 2 ∧
        c * (canvas.1 / 2) + d * (canvas.2 / 2) + q = (source.2 : K) / 2) ∧
    (∀ (n : Nat) (m : Matrix K), Matrix.IsSquare n m → ¬IsUnit (Matrix.square n m) →
      @sampling K (.exact K) m = .error .singular) := by
  refine ⟨?_, ?_, ?_⟩
  · intro a b p c d q regular
    exact sampling_affine (isUnit_affine.mp regular)
  · intro cosine sine unit source canvas
    exact sampling_exactForward unit source canvas
  · intro n m isSquare singular
    rw [Matrix.isUnit_iff_isUnit_det, isUnit_iff_ne_zero, not_not] at singular
    unfold sampling
    rw [Matrix.inverse_of_det_eq_zero isSquare singular]
    rfl

/-- A quarter turn has a zero where elimination starts. -/
theorem sampling_inverts_forward_of_quarter_turn :
    (∃ a b p c d q : ℚ, @sampling ℚ (.exact ℚ) (affine 0 (-1) 4 1 0 0) = .ok [a, b, p, c, d, q] ∧
      a * 4 + b * 0 + p = 0 ∧ c * 4 + d * 0 + q = 0) ∧
    (∃ a b p c d q : ℚ, @sampling ℚ (.exact ℚ) (exactForward (4, 2) (2, 4) 0 1) =
        .ok [a, b, p, c, d, q] ∧ a * ((2 : Int) / 2) + b * ((4 : Int) / 2) + p = (4 : Int) / 2) ∧
    @sampling ℚ (.exact ℚ) (affine 1 2 0 2 4 0) = .error .singular := by
  obtain ⟨regular, turned, singular⟩ := sampling_inverts_forward (K := ℚ)
  refine ⟨?_, ?_, ?_⟩
  · obtain ⟨a, b, p, c, d, q, sampled, back⟩ := regular 0 (-1) 4 1 0 0
      (isUnit_affine.mpr (by norm_num))
    have corner : Maps (affine 0 (-1) 4 1 0 0) 0 0 (4 : ℚ) 0 := by
      rw [affine, maps_iff]
      norm_num
    exact ⟨a, b, p, c, d, q, sampled, (back ..).mp corner⟩
  · obtain ⟨a, b, p, c, d, q, sampled, -, centre, -⟩ := turned 0 1 (by norm_num) (4, 2) (2, 4)
    exact ⟨a, b, p, c, d, q, sampled, centre⟩
  · exact singular 3 _ isSquare_affine (isUnit_affine.not.mpr (by norm_num))

end Rotation

end RasterEdit
