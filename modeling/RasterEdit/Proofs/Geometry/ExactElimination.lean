import Mathlib.Data.List.GetD
import Mathlib.LinearAlgebra.Matrix.ToLinearEquiv
import Mathlib.Tactic.FieldSimp
import Mathlib.Tactic.Linarith
import Mathlib.Tactic.Ring
import RasterEdit.Proofs.Geometry.Elimination
import RasterEdit.Proofs.Geometry.ExactRotation

/-!
# Elimination in exact numbers

Without rounding, the solver is a decision procedure. What it returns solves every equation; when it
gives up, the greatest leading coefficient is zero, so all of them are, and the equations have a
common solution other than zero if their right-hand sides are cleared. So a square matrix is either
inverted or its determinant is zero.
-/

set_option autoImplicit false

namespace RasterEdit

namespace Matrix

/-- An equation in `n` unknowns for `k` right-hand sides. -/
structure Equation.Fits {α : Type} (n k : Nat) (e : Equation α) : Prop where
  coefficients : e.coefficients.length = n
  values : e.values.length = k

variable {K : Type} [Field K] [LinearOrder K]

/-! ## Rows as linear forms -/

@[simp] theorem dot_nil (column : List K) : @dot K (.exact K) [] column = 0 := rfl

theorem dot_eq_sum (row column : List K) :
    @dot K (.exact K) row column = (List.zipWith (· * ·) row column).sum := by
  have folded (terms : List K) (first : K) :
      terms.foldl (· + ·) first = first + terms.sum := by
    induction terms generalizing first with
    | nil => simp
    | cons term terms ih => rw [List.foldl_cons, ih, List.sum_cons, add_assoc]
  unfold dot
  generalize List.zipWith (· * ·) row column = products
  cases products with
  | nil => rfl
  | cons first rest => exact (folded rest first).trans List.sum_cons.symm

@[simp] theorem dot_cons (c x : K) (row column : List K) :
    @dot K (.exact K) (c :: row) (x :: column) = c * x + @dot K (.exact K) row column := by
  rw [dot_eq_sum, dot_eq_sum, List.zipWith_cons_cons, List.sum_cons]

theorem dot_replicate_zero (row : List K) (n : Nat) :
    @dot K (.exact K) row (.replicate n 0) = 0 := by
  induction row generalizing n with
  | nil => rfl
  | cons c row ih =>
    cases n with
    | zero => rfl
    | succ n => rw [List.replicate_succ, dot_cons, ih, mul_zero, add_zero]

theorem dot_subtractScaled (factor : K) {a b : List K} (lengths : a.length = b.length)
    (x : List K) : @dot K (.exact K) (@subtractScaled K (.exact K) factor a b) x =
      @dot K (.exact K) b x - factor * @dot K (.exact K) a x := by
  induction a generalizing b x with
  | nil =>
    obtain rfl := List.length_eq_zero_iff.mp lengths.symm
    simp [subtractScaled]
  | cons c a ih =>
    cases b with
    | nil => cases lengths
    | cons d b =>
      cases x with
      | nil => simp [dot_eq_sum]
      | cons t x =>
        have rest := ih (Nat.succ.inj lengths) x
        simp only [subtractScaled, List.zipWith_cons_cons, dot_cons] at rest ⊢
        rw [rest]
        ring

theorem getD_subtractScaled (factor : K) {a b : List K} (lengths : a.length = b.length) (j : Nat) :
    (@subtractScaled K (.exact K) factor a b).getD j 0 = b.getD j 0 - factor * a.getD j 0 := by
  induction a generalizing b j with
  | nil =>
    obtain rfl := List.length_eq_zero_iff.mp lengths.symm
    simp [subtractScaled]
  | cons c a ih =>
    cases b with
    | nil => cases lengths
    | cons d b =>
      cases j with
      | zero => rfl
      | succ j => exact ih (Nat.succ.inj lengths) j

omit [LinearOrder K] in
theorem column_cons {row : List K} {j : Nat} (inRange : j < row.length) (rows : Matrix K) :
    column (row :: rows) j = row.getD j 0 :: column rows j := by
  simp [column, inRange]

/-! ## Choice of the pivot -/

/-- The leading coefficient, whose magnitude decides on the pivot. -/
def Equation.lead (e : Equation K) : K := e.coefficients.headD 0

theorem greatestLead_cases (equations : List (Equation K)) (position best : Nat) (greatest : K) :
    let k := @greatestLead K (.exact K) equations position best greatest
    (k = best ∧ ∀ e ∈ equations, |e.lead| ≤ greatest) ∨
      ∃ (i : Nat) (e : Equation K), equations[i]? = some e ∧ k = position + i ∧
        greatest < |e.lead| ∧ ∀ other ∈ equations, |other.lead| ≤ |e.lead| := by
  induction equations generalizing position best greatest with
  | nil => exact .inl ⟨rfl, nofun⟩
  | cons e rest ih =>
    by_cases greater : greatest < |e.lead|
    · have step : @greatestLead K (.exact K) (e :: rest) position best greatest =
          @greatestLead K (.exact K) rest (position + 1) position |e.lead| :=
        if_pos (decide_eq_true greater)
      rw [step]
      right
      obtain ⟨same, le⟩ | ⟨i, chosen, found, same, further, le⟩ :=
        ih (position + 1) position |e.lead|
      · exact ⟨0, e, rfl, same, greater, List.forall_mem_cons.mpr ⟨le_rfl, le⟩⟩
      · exact ⟨i + 1, chosen, found, by omega, greater.trans further,
          List.forall_mem_cons.mpr ⟨further.le, le⟩⟩
    · have step : @greatestLead K (.exact K) (e :: rest) position best greatest =
          @greatestLead K (.exact K) rest (position + 1) best greatest :=
        if_neg fun less => greater (of_decide_eq_true less)
      rw [step]
      obtain ⟨same, le⟩ | ⟨i, chosen, found, same, further, le⟩ := ih (position + 1) best greatest
      · exact .inl ⟨same, List.forall_mem_cons.mpr ⟨not_lt.mp greater, le⟩⟩
      · exact .inr ⟨i + 1, chosen, found, by omega, further,
          List.forall_mem_cons.mpr ⟨(not_lt.mp greater).trans further.le, le⟩⟩

/-- No equation has a leading coefficient of greater magnitude than the pivot. -/
theorem takePivot_greatest (first : Equation K) (rest : List (Equation K)) :
    ∀ e ∈ first :: rest, |e.lead| ≤ |(@takePivot K (.exact K) first rest).1.lead| := by
  obtain ⟨same, le⟩ | ⟨i, pivot, found, same, further, le⟩ :=
    greatestLead_cases rest 1 0 |first.lead|
  · rw [@takePivot_of_greatestLead_zero K (.exact K) first rest same]
    exact List.forall_mem_cons.mpr ⟨le_rfl, le⟩
  · rw [Nat.add_comm] at same
    rw [@takePivot_of_greatestLead_succ K (.exact K) first pivot rest i same found]
    exact List.forall_mem_cons.mpr ⟨further.le, le⟩

/-! ## One step -/

variable {n k : Nat}

theorem Equation.Fits.eliminate {lead : K} {later values : List K} {e : Equation K}
    (fits : e.Fits (n + 1) k) (laterWidth : later.length = n) (valuesWidth : values.length = k) :
    (@eliminate K (.exact K) lead later values e).Fits n k := by
  obtain ⟨coefficients, right⟩ := e
  cases coefficients with
  | nil => cases fits.coefficients
  | cons c rest =>
    have width : rest.length = n := Nat.succ.inj fits.coefficients
    have rightWidth : right.length = k := fits.values
    constructor
    · simp [Matrix.eliminate, subtractScaled, laterWidth, width]
    · simp [Matrix.eliminate, subtractScaled, valuesWidth, rightWidth]

/-- If the first unknown is what the pivot equation makes it, an equation keeps what it says of the
other unknowns when the first is eliminated. -/
theorem dot_eliminate {lead x v : K} {later values column : List K} {e : Equation K}
    (nonzero : lead ≠ 0) (fits : e.Fits (n + 1) k) (laterWidth : later.length = n)
    (pivot : lead * x + @dot K (.exact K) later column = v) :
    @dot K (.exact K) e.coefficients (x :: column) =
      @dot K (.exact K) (@eliminate K (.exact K) lead later values e).coefficients column +
        e.lead / lead * v := by
  obtain ⟨coefficients, right⟩ := e
  cases coefficients with
  | nil => cases fits.coefficients
  | cons c rest =>
    have restWidth : rest.length = n := Nat.succ.inj fits.coefficients
    have width : later.length = rest.length := laterWidth.trans restWidth.symm
    change @dot K (.exact K) (c :: rest) (x :: column) =
      @dot K (.exact K) (@subtractScaled K (.exact K) (c / lead) later rest) column + c / lead * v
    rw [dot_cons, dot_subtractScaled (c / lead) width, ← pivot]
    field_simp
    ring

theorem getD_eliminate {lead : K} {later values : List K} {e : Equation K}
    (fits : e.Fits (n + 1) k) (valuesWidth : values.length = k) (j : Nat) :
    (@eliminate K (.exact K) lead later values e).values.getD j 0 =
      e.values.getD j 0 - e.lead / lead * values.getD j 0 := by
  obtain ⟨coefficients, right⟩ := e
  cases coefficients with
  | nil => cases fits.coefficients
  | cons c rest =>
    exact getD_subtractScaled (c / lead) (valuesWidth.trans fits.values.symm) j

omit [LinearOrder K] in
theorem Equation.Fits.coefficients_eq {e : Equation K} (fits : e.Fits (n + 1) k) :
    ∃ rest, e.coefficients = e.lead :: rest ∧ rest.length = n := by
  obtain ⟨coefficients, right⟩ := e
  cases coefficients with
  | nil => cases fits.coefficients
  | cons c rest => exact ⟨rest, rfl, Nat.succ.inj fits.coefficients⟩

/-- What the solved unknowns leave of the right-hand sides of the pivot equation. -/
def remaining (later : List K) (solved : Matrix K) (values : List K) : List K :=
  (List.zip later solved).foldl
    (fun values (factor, row) => @subtractScaled K (.exact K) factor row values) values

theorem getD_remaining {solved : Matrix K} {values : List K}
    (widths : ∀ row ∈ solved, row.length = k) (valuesWidth : values.length = k) {j : Nat}
    (inRange : j < k) (later : List K) :
    (remaining later solved values).getD j 0 =
      values.getD j 0 - @dot K (.exact K) later (column solved j) := by
  induction later generalizing solved values with
  | nil => exact (sub_zero _).symm
  | cons factor later ih =>
    cases solved with
    | nil => simp [remaining, column, dot_eq_sum]
    | cons row solved =>
      obtain ⟨rowWidth, widths⟩ := List.forall_mem_cons.mp widths
      have same := rowWidth.trans valuesWidth.symm
      have reducedWidth : (@subtractScaled K (.exact K) factor row values).length = k := by
        simp [subtractScaled, rowWidth, valuesWidth]
      have rest := ih widths reducedWidth
      rw [getD_subtractScaled factor same] at rest
      rw [column_cons (by omega), dot_cons]
      exact rest.trans (sub_sub ..)

/-- A pivot, and what is left of the equations when it has eliminated the first unknown. -/
structure Reduces (n k : Nat) (equations : List (Equation K)) (pivot : Equation K) (later : List K)
    (reduced : List (Equation K)) : Prop where
  member : pivot ∈ equations
  greatest : ∀ e ∈ equations, |e.lead| ≤ |pivot.lead|
  coefficients : pivot.coefficients = pivot.lead :: later
  width : later.length = n
  count : reduced.length = n
  fits : ∀ e ∈ reduced, e.Fits n k
  covers : ∀ e ∈ equations,
    e = pivot ∨ @eliminate K (.exact K) pivot.lead later pivot.values e ∈ reduced

/-- One step of the solver: nothing can be done without a pivot, and with one the other equations
are solved for the other unknowns first. -/
theorem solve_succ {equations : List (Equation K)} (count : equations.length = n + 1)
    (fits : ∀ e ∈ equations, e.Fits (n + 1) k) :
    ∃ pivot later reduced, Reduces n k equations pivot later reduced ∧
      @solve K (.exact K) (n + 1) equations =
        if pivot.lead = 0 then .error .singular
        else (@solve K (.exact K) n reduced).map fun solved =>
          (remaining later solved pivot.values).map (· / pivot.lead) :: solved := by
  cases equations with
  | nil => cases count
  | cons first rest =>
    have greatest := takePivot_greatest first rest
    have members := @takePivot_perm K (.exact K) first rest
    generalize choice : @takePivot K (.exact K) first rest = chosen at greatest members
    obtain ⟨pivot, others⟩ := chosen
    have member : pivot ∈ first :: rest := members.mem_iff.mp List.mem_cons_self
    have pivotFits := fits pivot member
    obtain ⟨later, coefficients, width⟩ := pivotFits.coefficients_eq
    refine ⟨pivot, later, others.map (@eliminate K (.exact K) pivot.lead later pivot.values),
      ⟨member, greatest, coefficients, width, ?_, ?_, ?_⟩, ?_⟩
    · rw [List.length_map]
      exact Nat.succ.inj (members.length_eq.trans count)
    · intro e reducedMember
      obtain ⟨other, among, rfl⟩ := List.mem_map.mp reducedMember
      have otherFits := fits other (members.mem_iff.mp (List.mem_cons_of_mem _ among))
      exact otherFits.eliminate width pivotFits.values
    · intro e among
      exact (List.mem_cons.mp (members.mem_iff.mpr among)).imp_right List.mem_map_of_mem
    · simp only [solve, choice, coefficients]
      change (if decide (pivot.lead = 0) = true then _ else _) = _
      simp only [decide_eq_true_eq]
      split
      · rfl
      · cases @solve K (.exact K) n
          (others.map (@eliminate K (.exact K) pivot.lead later pivot.values)) <;> rfl

/-! ## All equations -/

/-- A solution satisfies every equation, for each of the right-hand sides. -/
theorem solve_sound {equations : List (Equation K)} {solution : Matrix K}
    (count : equations.length = n) (fits : ∀ e ∈ equations, e.Fits n k)
    (solved : @solve K (.exact K) n equations = .ok solution) :
    ∀ e ∈ equations, ∀ j < k,
      @dot K (.exact K) e.coefficients (column solution j) = e.values.getD j 0 := by
  induction n generalizing equations solution with
  | zero =>
    rw [List.length_eq_zero_iff.mp count]
    exact nofun
  | succ n ih =>
    have widths := (@solve_shape K (.exact K) k _ _ _ (fun e member => (fits e member).values)
      solved).2
    obtain ⟨pivot, later, reduced, reduces, step⟩ := solve_succ count fits
    have valuesWidth := (fits pivot reduces.member).values
    rw [step] at solved
    split at solved
    · cases solved
    · next nonzero =>
      cases below : @solve K (.exact K) n reduced with
      | error fault =>
        rw [below] at solved
        cases solved
      | ok rows =>
        rw [below] at solved
        cases solved
        obtain ⟨width, rowWidths⟩ := List.forall_mem_cons.mp widths
        intro e member j inRange
        have lead : ((remaining later rows pivot.values).map (· / pivot.lead)).getD j 0 =
            (remaining later rows pivot.values).getD j 0 / pivot.lead := by
          have mapped := List.getD_map (l := remaining later rows pivot.values) (d := 0) (n := j)
            (· / pivot.lead)
          rwa [zero_div] at mapped
        have satisfied : pivot.lead * ((remaining later rows pivot.values).getD j 0 / pivot.lead) +
            @dot K (.exact K) later (column rows j) = pivot.values.getD j 0 := by
          rw [mul_div_cancel₀ _ nonzero, getD_remaining rowWidths valuesWidth inRange,
            sub_add_cancel]
        rw [column_cons (by omega), lead]
        obtain rfl | among := reduces.covers e member
        · rw [reduces.coefficients, dot_cons, satisfied]
        · have other := ih reduces.count reduces.fits below _ among j inRange
          rw [dot_eliminate nonzero (fits e member) reduces.width satisfied, other,
            getD_eliminate (fits e member) valuesWidth, sub_add_cancel]

/-- If the solver gives up, there are numbers, not all zero, that every row of coefficients takes to
zero. -/
theorem solve_singular {equations : List (Equation K)} {fault : MatrixFault}
    [IsStrictOrderedRing K] (count : equations.length = n) (fits : ∀ e ∈ equations, e.Fits n k)
    (failed : @solve K (.exact K) n equations = .error fault) :
    fault = .singular ∧ ∃ x : List K, x.length = n ∧ (∃ t ∈ x, t ≠ 0) ∧
      ∀ e ∈ equations, @dot K (.exact K) e.coefficients x = 0 := by
  induction n generalizing equations with
  | zero => cases failed
  | succ n ih =>
    obtain ⟨pivot, later, reduced, reduces, step⟩ := solve_succ count fits
    rw [step] at failed
    split at failed
    · next vanishes =>
      cases failed
      refine ⟨rfl, 1 :: .replicate n 0, by simp, ⟨1, List.mem_cons_self, one_ne_zero⟩, ?_⟩
      intro e member
      have small := reduces.greatest e member
      rw [vanishes, abs_zero, abs_nonpos_iff] at small
      obtain ⟨rest, coefficients, -⟩ := (fits e member).coefficients_eq
      rw [coefficients, dot_cons, dot_replicate_zero, small, zero_mul, add_zero]
    · next nonzero =>
      cases below : @solve K (.exact K) n reduced with
      | ok rows =>
        rw [below] at failed
        cases failed
      | error other =>
        rw [below] at failed
        cases failed
        obtain ⟨rfl, x, width, ⟨t, among, proper⟩, vanish⟩ := ih reduces.count reduces.fits below
        have satisfied : pivot.lead * (-@dot K (.exact K) later x / pivot.lead) +
            @dot K (.exact K) later x = 0 := by
          rw [mul_div_cancel₀ _ nonzero, neg_add_cancel]
        refine ⟨rfl, (-@dot K (.exact K) later x / pivot.lead) :: x, by simp [width],
          ⟨t, List.mem_cons_of_mem _ among, proper⟩, ?_⟩
        intro e member
        obtain rfl | among := reduces.covers e member
        · rw [reduces.coefficients, dot_cons, satisfied]
        · rw [dot_eliminate nonzero (fits e member) reduces.width satisfied, vanish _ among,
            mul_zero, add_zero]

end Matrix

end RasterEdit
