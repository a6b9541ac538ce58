import Mathlib.Data.Nat.Cast.Order.Field
import RasterEdit.Proofs.Geometry.Rotation
import RasterEdit.Proofs.Result

/-!
# Rotation canvases

A canvas that has a size has extents that are not negative, and every canvas that has a size can be
sampled: neither the forward matrix of the rotation nor its inverse fails.
-/

set_option autoImplicit false

namespace RasterEdit

open Binary

/-! ## Integral readings -/

namespace Binary

variable {f : Format}

/-- The floor of a value without a minus sign is a natural number not above it. -/
theorem floor?_of_leans {x : Binary f} {k : Int} (leans : Leans false x)
    (floor : x.floor? = some k) :
    ∃ n rank : Nat, k = n ∧ rank < f.top ∧ (n : ℚ) ≤ f.magnitude rank := by
  cases x with
  | nan => cases floor
  | signed s rank h =>
    have significand : (if s then -(f.significand rank : Int) else f.significand rank) =
        f.significand rank := by
      rcases leans with rfl | rfl
      · simp [f.significand_zero]
      · rfl
    by_cases finite : rank < f.top
    · simp only [floor?, parts?, finite, ↓reduceIte, significand, Option.map_some,
        Option.some.injEq] at floor
      have scale : (0 : ℚ) < 2 ^ f.quantum rank := by positivity
      split at floor
      · next nonneg =>
        refine ⟨f.significand rank <<< (f.quantum rank).toNat, rank, ?_, finite, ?_⟩
        · rw [← floor]; rfl
        · rw [shiftLeft_toNat _ nonneg]; exact le_refl _
      · next negative =>
        refine ⟨f.significand rank >>> (-f.quantum rank).toNat, rank, ?_, finite, ?_⟩
        · rw [← floor]; rfl
        · rw [Nat.shiftRight_eq_div_pow, Format.magnitude]
          have power : (2 : ℚ) ^ f.quantum rank = (2 ^ (-f.quantum rank).toNat)⁻¹ := by
            rw [← zpow_natCast, Int.toNat_of_nonneg (by omega), zpow_neg, inv_inv]
          rw [power, ← div_eq_mul_inv]
          exact_mod_cast Nat.cast_div_le
    · simp [floor?, parts?, finite] at floor

end Binary

theorem integral_eq_ok {reading : Real64 → Option Int} {x : Real64} {n : Int} :
    integral reading x = .ok n ↔ reading x = some n := by
  unfold integral
  split <;> simp_all

theorem Real64.isFinite_ofInt {n rank : Nat} (finite : rank < Format.binary64.top)
    (le : (n : ℚ) ≤ Format.binary64.magnitude rank) : (Real64.ofInt n).isFinite = true := by
  have rounded : nearestRank .binary64 n 1 0 ≤ rank := by
    apply nearestRank_le (by decide) one_ne_zero
    simpa using le
  rw [Real64.ofInt, Binary.ofInt, Binary.round, isFinite_signed]
  exact Nat.lt_of_le_of_lt rounded finite

/-- A length without a minus sign rounds to a natural number that binary64 can express. -/
theorem roundHalfAway_eq_ok {x : Real64} {n : Int} (leans : Leans false x)
    (rounded : roundHalfAway x = .ok n) : ∃ k : Nat, n = k ∧ (Real64.ofInt k).isFinite = true := by
  unfold roundHalfAway at rounded
  cases magnitude : integral floor? (x.abs + Real64.half) with
  | error fault => rw [magnitude] at rounded; cases rounded
  | ok m =>
    rw [magnitude] at rounded
    have floor := integral_eq_ok.mp magnitude
    have half : Leans false Real64.half := .inr rfl
    obtain ⟨k, rank, rfl, finite, le⟩ := floor?_of_leans ((Leans.abs x).add half) floor
    refine ⟨k, ?_, Real64.isFinite_ofInt finite le⟩
    cases x with
    | nan => cases rounded; rfl
    | signed s a h =>
      cases s with
      | false => cases rounded; rfl
      | true =>
        cases rounded
        -- A zero with a minus sign is the only such value, and it rounds to zero.
        have zero : (abs (signed true a h)).isZero = true := by
          rcases leans with rfl | sign
          · rfl
          · cases sign
        have sum : abs (signed true a h) + Real64.half = Real64.half := by
          rw [Binary.add_comm]
          exact (add_zero_same (by decide) (by decide) zero).eq_of_nonzero (by decide)
        have none : Real64.half.floor? = some 0 := by decide
        rw [sum, none] at floor
        obtain rfl : k = 0 := by simpa using floor.symm
        rfl

theorem realOfInt_eq_ok {n : Nat} {x : Real64} :
    realOfInt n = .ok x ↔ (Real64.ofInt n).isFinite = true ∧ x = Real64.ofInt n := by
  simp only [realOfInt]
  split
  · next finite => simp [finite, eq_comm]
  · next infinite => simp [infinite]

namespace Rotation

theorem halved_whole {n : Nat} (finite : (Real64.ofInt n).isFinite = true) :
    ∃ x, halved (.whole n) = .ok x ∧ x.isFinite = true := by
  have half : nearestRank .binary64 n 2 0 ≤ nearestRank .binary64 n 1 0 := by
    apply nearestRank_mono (by decide) two_ne_zero one_ne_zero
    have nonneg : (0 : ℚ) ≤ n := Nat.cast_nonneg n
    push_cast
    linarith
  rw [Real64.ofInt, ofInt, Binary.round, isFinite_signed, Int.natAbs_natCast] at finite
  have isFinite : (Real64.ofFraction n 2).isFinite = true := by
    rw [Real64.ofFraction, ofFraction, Binary.round, isFinite_signed]
    exact Nat.lt_of_le_of_lt half finite
  refine ⟨_, ?_, isFinite⟩
  simp [halved, Number.integer?, realOfFraction, isFinite]

/-! ## Angles -/

theorem isFinite_radians {degrees : Real64} (finite : degrees.isFinite = true) :
    degrees.radians.isFinite = true := by
  have small : Format.binary64.magnitude 4580687790476533049 ≤ 1 := by
    rw [← Real64.magnitude_one]
    exact Format.magnitude_mono (by decide) (by decide)
  cases degrees with
  | nan => cases finite
  | signed s a h =>
    rw [isFinite_signed] at finite
    have notTop : (4580687790476533049 : Nat) ≠ Format.binary64.top := by decide
    rw [radians, Real64.radiansFactor_eq]
    change (Binary.mul _ _).isFinite = true
    simp only [Binary.mul, finite.ne, notTop, or_self, ↓reduceIte, Binary.round, isFinite_signed]
    refine Nat.lt_of_le_of_lt (nearestRank_le (by decide) one_ne_zero ?_) finite
    rw [Format.magnitude_mul]
    have nonneg : 0 ≤ Format.binary64.magnitude a := by unfold Format.magnitude; positivity
    nlinarith

/-! ## Canvases -/

theorem canvasSize_eq_ok {width height : Nat} {degrees : Real64} {canvas : Int × Int}
    (resolved : canvasSize (.whole width) (.whole height) (.real degrees) = .ok canvas) :
    ((Real64.ofInt width).isFinite = true ∧ (Real64.ofInt height).isFinite = true) ∧
      roundHalfAway (extents (Real64.ofInt width) (Real64.ofInt height)
        (degrees.wrap 360).radians.cos (degrees.wrap 360).radians.sin).1 = .ok canvas.1 ∧
      roundHalfAway (extents (Real64.ofInt width) (Real64.ofInt height)
        (degrees.wrap 360).radians.cos (degrees.wrap 360).radians.sin).2 = .ok canvas.2 := by
  simp only [canvasSize, wrapped, Result.ok_bind, Number.toReal] at resolved
  obtain ⟨w, widthReal, resolved⟩ := Result.bind_eq_ok.mp resolved
  obtain ⟨h, heightReal, resolved⟩ := Result.bind_eq_ok.mp resolved
  obtain ⟨widthFinite, rfl⟩ := realOfInt_eq_ok.mp widthReal
  obtain ⟨heightFinite, rfl⟩ := realOfInt_eq_ok.mp heightReal
  obtain ⟨canvasWidth, roundedWidth, resolved⟩ := Result.bind_eq_ok.mp resolved
  obtain ⟨canvasHeight, roundedHeight, resolved⟩ := Result.bind_eq_ok.mp resolved
  cases resolved
  exact ⟨⟨widthFinite, heightFinite⟩, roundedWidth, roundedHeight⟩

theorem isFinite_of_canvasSize {width height : Nat} {degrees : Real64} {canvas : Int × Int}
    (resolved : canvasSize (.whole width) (.whole height) (.real degrees) = .ok canvas) :
    degrees.isFinite = true := by
  by_contra infinite
  have parts : degrees.parts? = none := by
    cases degrees with
    | nan => rfl
    | signed s a h =>
      have notBelow : ¬ a < Format.binary64.top := by simpa using infinite
      simp [parts?, notBelow]
  have wrap : degrees.wrap 360 = nan := by simp [Binary.wrap, parts]
  obtain ⟨-, rounded, -⟩ := canvasSize_eq_ok resolved
  have lost : (extents (Real64.ofInt width) (Real64.ofInt height) (nan : Real64).radians.cos
      (nan : Real64).radians.sin).1 = nan := by
    change Real64.ofInt width * (nan : Real64) + Real64.ofInt height * nan = nan
    rw [mul_nan]
    rfl
  rw [wrap, lost] at rounded
  cases rounded

/-- The extents of a canvas are natural numbers that binary64 can express. -/
theorem canvasSize_fits {width height : Nat} {degrees : Real64} {canvas : Int × Int}
    (resolved : canvasSize (.whole width) (.whole height) (.real degrees) = .ok canvas) :
    ∃ w h : Nat, canvas = ((w : Int), (h : Int)) ∧ (Real64.ofInt w).isFinite = true ∧
      (Real64.ofInt h).isFinite = true := by
  obtain ⟨-, roundedWidth, roundedHeight⟩ := canvasSize_eq_ok resolved
  have natural (n : Nat) : Leans false (Real64.ofInt n) := .inr (by simp)
  have extent (m n : Nat) (x y : Real64) :
      Leans false (Real64.ofInt m * x.abs + Real64.ofInt n * y.abs) :=
    ((natural m).mul (Leans.abs x)).add ((natural n).mul (Leans.abs y))
  obtain ⟨w, first, finiteWidth⟩ := roundHalfAway_eq_ok (extent ..) roundedWidth
  obtain ⟨h, second, finiteHeight⟩ := roundHalfAway_eq_ok (extent ..) roundedHeight
  exact ⟨w, h, Prod.ext first second, finiteWidth, finiteHeight⟩

end Rotation

/-! ## Sampling -/

theorem Rotation.Turns.sampling {cosine sine : Real64} {m : Matrix Real64}
    (turns : Rotation.Turns cosine sine m) (cosineFinite : cosine.isFinite = true)
    (sineFinite : sine.isFinite = true) (regular : sine.isZero = false ∨ cosine.isZero = false) :
    ∃ coefficients, Rotation.sampling m = .ok coefficients ∧ coefficients.length = 6 := by
  obtain ⟨inverse, solved⟩ := turns.solvable cosineFinite sineFinite regular.symm
  have square : m.length = 3 ∧ m.all (·.length == m.length) = true := by
    cases turns
    exact ⟨rfl, rfl⟩
  have unit : ∀ row ∈ (Matrix.identity 3 : Matrix Real64), row.length = 3 := by
    intro row member
    simp only [Matrix.identity, List.mem_map] at member
    obtain ⟨i, -, rfl⟩ := member
    simp
  obtain ⟨count, rows⟩ := Matrix.solve_shape (k := 3) (by
    intro e member
    obtain ⟨i, inRange, rfl⟩ := List.getElem_of_mem member
    rw [List.getElem_zipWith]
    exact unit _ (List.getElem_mem _)) solved
  refine ⟨(inverse.take 2).flatten, ?_, ?_⟩
  · rw [Rotation.sampling, Matrix.inverse, if_pos square.2, square.1, solved]
    rfl
  · rw [List.length_flatten, List.map_congr_left (g := fun _ => 3)]
    · simp [count]
    · intro row member
      exact rows row (List.mem_of_mem_take member)

theorem Turn.Sampling.ofList?_isSome {coefficients : List Real64} (six : coefficients.length = 6) :
    ∃ s, Turn.Sampling.ofList? coefficients = some s := by
  match coefficients, six with
  | [a, b, c, d, e, f], _ => exact ⟨⟨a, b, c, d, e, f⟩, rfl⟩

/-- A rectangle that has a canvas can be sampled onto it. -/
theorem Turn.samplingOnto_total (size : Size) {degrees : Real64} {canvas : Int × Int}
    (resolved : Rotation.canvasSize (.whole size.toPair.1) (.whole size.toPair.2) (.real degrees) =
      .ok canvas) :
    ∃ sampling, Turn.samplingOnto size.toPair canvas degrees.radians = .ok sampling := by
  have angleFinite := Rotation.isFinite_radians (Rotation.isFinite_of_canvasSize resolved)
  obtain ⟨⟨widthFinite, heightFinite⟩, -⟩ := Rotation.canvasSize_eq_ok resolved
  obtain ⟨w, h, rfl, canvasWidthFinite, canvasHeightFinite⟩ := Rotation.canvasSize_fits resolved
  obtain ⟨sourceX, halvedWidth, sourceXFinite⟩ := Rotation.halved_whole widthFinite
  obtain ⟨sourceY, halvedHeight, sourceYFinite⟩ := Rotation.halved_whole heightFinite
  obtain ⟨canvasX, halvedCanvasWidth, canvasXFinite⟩ := Rotation.halved_whole canvasWidthFinite
  obtain ⟨canvasY, halvedCanvasHeight, canvasYFinite⟩ := Rotation.halved_whole canvasHeightFinite
  obtain ⟨⟨sineFinite, cosineFinite⟩, regular⟩ := Real64.sinCos_regular angleFinite
  have forward : Rotation.forwardMatrix (.whole size.toPair.1, .whole size.toPair.2)
      (.whole w, .whole h) (.real degrees.radians) =
      .ok (Rotation.forward (sourceX, sourceY) (canvasX, canvasY) degrees.radians.sinCos.2
        degrees.radians.sinCos.1) := by
    simp only [Rotation.forwardMatrix, Number.toReal, Result.ok_bind, angleFinite, Size.toPair,
      halvedWidth, halvedHeight, halvedCanvasWidth, halvedCanvasHeight]
    rfl
  have turns := Rotation.forward_turns (sourceX, sourceY) (canvasX, canvasY)
    cosineFinite sineFinite ⟨sourceXFinite, sourceYFinite⟩ ⟨canvasXFinite, canvasYFinite⟩
  obtain ⟨coefficients, sampled, six⟩ := turns.sampling cosineFinite sineFinite regular
  obtain ⟨sampling, read⟩ := Turn.Sampling.ofList?_isSome six
  refine ⟨sampling, ?_⟩
  simp only [Turn.samplingOnto, forward, Result.ok_bind, sampled, read]
  rfl

end RasterEdit
