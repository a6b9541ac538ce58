import RasterEdit.Edit.Rotate
import RasterEdit.Proofs.Binary.Radians
import RasterEdit.Proofs.Binary.SinCos
import RasterEdit.Proofs.Geometry.Canvas

/-!
# The two angles of a rotation

The canvas of a rotation is sized by the angle reduced to one turn, and its pixels are sampled by
the angle as it was asked for. Each is converted to radians, with an error that is a share of the
angle, so the two are the same turn only as long as the angle is not too large.
-/

set_option autoImplicit false

namespace RasterEdit

open Binary

namespace Rotation

/-- Cosines and sines of two angles that differ by at most `ε`: those of the angles themselves, and
those computed from them. -/
structure Alike (a b : Real64) (ε : ℝ) : Prop where
  cos : |Real.cos a.number - Real.cos b.number| ≤ ε
  sin : |Real.sin a.number - Real.sin b.number| ≤ ε
  computedCos : |(a.cos.number : ℝ) - b.cos.number| ≤ ε
  computedSin : |(a.sin.number : ℝ) - b.sin.number| ≤ ε

namespace Alike

variable {a b : Real64}

theorem mono {ε δ : ℝ} (alike : Alike a b ε) (le : ε ≤ δ) : Alike a b δ :=
  ⟨alike.cos.trans le, alike.sin.trans le, alike.computedCos.trans le, alike.computedSin.trans le⟩

/-- Angles that are close up to whole turns. -/
theorem of_near {k : ℤ} {δ : ℝ} (left : a.isFinite = true) (right : b.isFinite = true)
    (near : |(a.number : ℝ) - (b.number - k * (2 * Real.pi))| ≤ δ) :
    Alike a b (δ + 1 / 2 ^ 51) := by
  have cosines : |Real.cos a.number - Real.cos b.number| ≤ δ := by
    rw [← Real.cos_sub_int_mul_two_pi b.number k]
    exact (Real.abs_cos_sub_cos_le _ _).trans near
  have sines : |Real.sin a.number - Real.sin b.number| ≤ δ := by
    rw [← Real.sin_sub_int_mul_two_pi b.number k]
    exact (Real.abs_sin_sub_sin_le _ _).trans near
  obtain ⟨leftSine, leftCosine⟩ := Real64.sinCos_near left
  obtain ⟨rightSine, rightCosine⟩ := Real64.sinCos_near right
  have computed {p q u v : ℝ} (first : |p - u| ≤ 1 / 2 ^ 52) (second : |q - v| ≤ 1 / 2 ^ 52)
      (between : |u - v| ≤ δ) : |p - q| ≤ δ + 1 / 2 ^ 51 := by
    calc |p - q| ≤ |p - u| + |u - q| := abs_sub_le p u q
      _ ≤ |p - u| + (|u - v| + |v - q|) := by gcongr; exact abs_sub_le u v q
      _ ≤ 1 / 2 ^ 52 + (δ + 1 / 2 ^ 52) := by
          rw [abs_sub_comm v q]
          gcongr
      _ = δ + 1 / 2 ^ 51 := by ring
  have wider : δ ≤ δ + 1 / 2 ^ 51 := le_add_of_nonneg_right (by positivity)
  exact ⟨cosines.trans wider, sines.trans wider, computed leftCosine rightCosine cosines,
    computed leftSine rightSine sines⟩

end Alike

variable {degrees : Real64} (finite : degrees.isFinite = true)

include finite

/-- The difference grows with the angle, whatever its magnitude. -/
theorem angles_alike : Alike (degrees.wrap 360).radians degrees.radians
    (|(degrees.number : ℝ)| / 2 ^ 58 + 1 / 2 ^ 47) := by
  obtain ⟨reduced, -⟩ := Real64.wrap_near finite (show 0 < 360 by decide) (by decide)
  obtain ⟨k, near⟩ := Real64.radians_wrap_near finite
  have alike := Alike.of_near (isFinite_radians reduced) (isFinite_radians finite) near
  have rest : (1 / 2 ^ 48 + 1 / 2 ^ 51 : ℝ) ≤ 1 / 2 ^ 47 := by norm_num
  exact alike.mono (by linarith)

omit finite in
/-- A forward matrix has the cosine and the sine of the angle it is given. -/
theorem forwardMatrix_reads {source canvas : Number × Number} {radians : Real64}
    {m : Matrix Real64} (resolved : forwardMatrix source canvas (.real radians) = .ok m) :
    ∃ sourceCentre canvasCentre, m = forward sourceCentre canvasCentre radians.cos radians.sin := by
  simp only [forwardMatrix, Number.toReal, Result.ok_bind] at resolved
  split at resolved
  · cases resolved
  · obtain ⟨canvasX, -, resolved⟩ := Result.bind_eq_ok.mp resolved
    obtain ⟨canvasY, -, resolved⟩ := Result.bind_eq_ok.mp resolved
    obtain ⟨sourceX, -, resolved⟩ := Result.bind_eq_ok.mp resolved
    obtain ⟨sourceY, -, resolved⟩ := Result.bind_eq_ok.mp resolved
    cases resolved
    exact ⟨_, _, rfl⟩

end Rotation

/-- The canvas is sized by the cosine and the sine of one angle, and the forward matrix has those
of another. They are the same turn up to an error that grows with the angle, and that does not show
below `2 ^ 38` degrees. -/
theorem canvas_and_matrix_turn_alike {request : RotateRequest}
    (finite : request.degrees.isFinite = true) :
    let canvasAngle := (request.degrees.wrap 360).radians
    let matrixAngle := request.degrees.radians
    (∀ (width height : ℕ) (canvas : ℤ × ℤ),
      Rotation.canvasSize (.whole width) (.whole height) (.real request.degrees) = .ok canvas →
        let extents := Rotation.extents (Real64.ofInt width) (Real64.ofInt height)
          canvasAngle.cos canvasAngle.sin
        roundHalfAway extents.1 = .ok canvas.1 ∧ roundHalfAway extents.2 = .ok canvas.2) ∧
    (∀ (source canvas : Number × Number) (m : Matrix Real64),
      Rotation.forwardMatrix source canvas (.real matrixAngle) = .ok m →
        ∃ sourceCentre canvasCentre,
          m = Rotation.forward sourceCentre canvasCentre matrixAngle.cos matrixAngle.sin) ∧
    Rotation.Alike canvasAngle matrixAngle
      (|(request.degrees.number : ℝ)| / 2 ^ 58 + 1 / 2 ^ 47) ∧
    (|request.degrees.number| ≤ 2 ^ 38 →
      Rotation.Alike canvasAngle matrixAngle (1 / 10 ^ 6)) := by
  have alike := Rotation.angles_alike finite
  refine ⟨fun width height canvas resolved => (Rotation.canvasSize_eq_ok resolved).2,
    fun source canvas m resolved => Rotation.forwardMatrix_reads resolved, alike, ?_⟩
  intro moderate
  have moderateReal : |(request.degrees.number : ℝ)| ≤ 2 ^ 38 := by exact_mod_cast moderate
  refine alike.mono ?_
  calc |(request.degrees.number : ℝ)| / 2 ^ 58 + 1 / 2 ^ 47 ≤ 2 ^ 38 / 2 ^ 58 + 1 / 2 ^ 47 := by
        gcongr
    _ ≤ 1 / 10 ^ 6 := by norm_num

theorem canvas_and_matrix_turn_alike_at_a_billion :
    let request : RotateRequest := ⟨Real64.ofInt (-(10 ^ 9))⟩
    request.degrees.isFinite = true ∧
      Rotation.Alike (request.degrees.wrap 360).radians request.degrees.radians (1 / 10 ^ 6) :=
  ⟨by decide +kernel, (canvas_and_matrix_turn_alike (by decide +kernel)).2.2.2 (by
    rw [Real64.number_ofInt (by decide)]
    norm_num)⟩

/-- `10 ^ 20` degrees are whole turns and 280 degrees; the matrix turns by about 162 degrees. -/
theorem canvas_and_matrix_turn_differently :
    let request : RotateRequest := ⟨Real64.ofInt (10 ^ 20)⟩
    let canvasAngle := (request.degrees.wrap 360).radians
    let matrixAngle := request.degrees.radians
    request.degrees.isFinite = true ∧ request.isWholeTurn = false ∧
      1 < |(canvasAngle.cos.number : ℝ) - matrixAngle.cos.number| ∧
      1 < |Real.cos canvasAngle.number - Real.cos matrixAngle.number| := by
  have canvasFinite : ((Real64.ofInt (10 ^ 20)).wrap 360).radians.isFinite = true := by
    decide +kernel
  have matrixFinite : (Real64.ofInt (10 ^ 20)).radians.isFinite = true := by decide +kernel
  have canvasCos : ((Real64.ofInt (10 ^ 20)).wrap 360).radians.cos =
      .signed false 4595424355236410236 (by decide) := by decide +kernel
  have matrixCos : (Real64.ofInt (10 ^ 20)).radians.cos =
      .signed true 4606750042511889565 (by decide) := by decide +kernel
  have canvasNumber : (((Real64.ofInt (10 ^ 20)).wrap 360).radians.cos).number =
      6256334945874812 * 2 ^ (-55 : ℤ) := by
    rw [canvasCos]
    decide +kernel
  have matrixNumber : ((Real64.ofInt (10 ^ 20)).radians.cos).number =
      -(8574822966613149 * 2 ^ (-53 : ℤ)) := by
    rw [matrixCos]
    decide +kernel
  have canvasNear := (Real64.sinCos_near canvasFinite).2
  have matrixNear := (Real64.sinCos_near matrixFinite).2
  refine ⟨by decide +kernel, by decide +kernel, ?_, ?_⟩
  · rw [canvasNumber, matrixNumber]
    norm_num
  · rw [canvasNumber] at canvasNear
    rw [matrixNumber] at matrixNear
    dsimp only
    generalize Real.cos ((Real64.ofInt (10 ^ 20)).wrap 360).radians.number = c at *
    generalize Real.cos (Real64.ofInt (10 ^ 20)).radians.number = t at *
    have low := (abs_le.mp canvasNear).2
    have high := (abs_le.mp matrixNear).1
    norm_num at low high
    exact lt_of_lt_of_le (by linarith) (le_abs_self _)

end RasterEdit
