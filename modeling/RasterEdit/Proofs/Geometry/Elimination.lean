import RasterEdit.Geometry.Matrix

/-!
# Elimination

When a linear system of the solver has a solution, and the shape of that solution. The scalars are
arbitrary: which pivots are taken depends on comparisons alone, and no law of arithmetic is used.
-/

set_option autoImplicit false

namespace RasterEdit.Matrix

variable {α : Type} [Scalar α]

/-! ## Choice of the pivot -/

theorem takePivot_nil (first : Equation α) : takePivot first [] = (first, []) := rfl

theorem takePivot_first {a b : α} {as bs va vb : List α}
    (above : Scalar.isLess (Scalar.magnitude a) (Scalar.magnitude b) = false) :
    takePivot ⟨a :: as, va⟩ [⟨b :: bs, vb⟩] = (⟨a :: as, va⟩, [⟨b :: bs, vb⟩]) := by
  simp [takePivot, greatestLead, above]

theorem takePivot_first_of_three {a b c : α} {as bs cs va vb vc : List α}
    (aboveSecond : Scalar.isLess (Scalar.magnitude a) (Scalar.magnitude b) = false)
    (aboveThird : Scalar.isLess (Scalar.magnitude a) (Scalar.magnitude c) = false) :
    takePivot ⟨a :: as, va⟩ [⟨b :: bs, vb⟩, ⟨c :: cs, vc⟩] =
      (⟨a :: as, va⟩, [⟨b :: bs, vb⟩, ⟨c :: cs, vc⟩]) := by
  simp [takePivot, greatestLead, aboveSecond, aboveThird]

theorem takePivot_second_of_three {a b c : α} {as bs cs va vb vc : List α}
    (below : Scalar.isLess (Scalar.magnitude a) (Scalar.magnitude b) = true)
    (aboveThird : Scalar.isLess (Scalar.magnitude b) (Scalar.magnitude c) = false) :
    takePivot ⟨a :: as, va⟩ [⟨b :: bs, vb⟩, ⟨c :: cs, vc⟩] =
      (⟨b :: bs, vb⟩, [⟨a :: as, va⟩, ⟨c :: cs, vc⟩]) := by
  simp [takePivot, greatestLead, below, aboveThird]

section Choice

variable {first pivot : Equation α} {rest : List (Equation α)}

theorem takePivot_of_greatestLead_zero
    (best : greatestLead rest 1 0 (Scalar.magnitude (first.coefficients.headD 0)) = 0) :
    takePivot first rest = (first, rest) := by
  simp only [takePivot, best]

theorem takePivot_of_greatestLead_succ {i : Nat}
    (best : greatestLead rest 1 0 (Scalar.magnitude (first.coefficients.headD 0)) = i + 1)
    (found : rest[i]? = some pivot) : (takePivot first rest).1 = pivot := by
  simp only [takePivot, best, found]

end Choice

/-! ## Solvable systems -/

/-- The solver finds pivots for all unknowns. -/
def Solvable (n : Nat) (equations : List (Equation α)) : Prop :=
  ∃ solution, solve n equations = .ok solution

theorem solvable_zero (equations : List (Equation α)) : Solvable 0 equations :=
  ⟨[], rfl⟩

theorem Solvable.succ {n : Nat} {first : Equation α} {rest others : List (Equation α)}
    {lead : α} {later values : List α}
    (chosen : takePivot first rest = (⟨lead :: later, values⟩, others))
    (nonzero : Scalar.isZero lead = false)
    (reduced : Solvable n (others.map (eliminate lead later values))) :
    Solvable (n + 1) (first :: rest) := by
  obtain ⟨solved, solves⟩ := reduced
  simp only [Solvable, solve, chosen, nonzero, Bool.false_eq_true, ↓reduceIte]
  rw [solves]
  exact ⟨_, rfl⟩

/-! ## Shape of a solution -/

theorem takePivot_perm (first : Equation α) (rest : List (Equation α)) :
    ((takePivot first rest).1 :: (takePivot first rest).2).Perm (first :: rest) := by
  unfold takePivot
  split
  · exact .refl _
  · next k _ =>
    split
    · exact .refl _
    · next pivot found =>
      obtain ⟨inRange, rfl⟩ := List.getElem?_eq_some_iff.mp found
      have split := List.take_append_drop k rest
      rw [List.drop_eq_getElem_cons inRange] at split
      calc (rest[k] :: (rest.take k ++ first :: rest.drop (k + 1))).Perm
            (first :: rest[k] :: (rest.take k ++ rest.drop (k + 1))) :=
            (List.Perm.cons _ List.perm_middle).trans (List.Perm.swap ..)
        _ |>.Perm (first :: (rest.take k ++ rest[k] :: rest.drop (k + 1))) :=
            List.Perm.cons _ List.perm_middle.symm
        _ |>.Perm (first :: rest) := by rw [split]

theorem eliminate_width {k : Nat} {lead : α} {later values : List α} {e : Equation α}
    (pivotWidth : values.length = k) (width : e.values.length = k) :
    (eliminate lead later values e).values.length = k := by
  unfold eliminate
  split
  · exact width
  · simp [subtractScaled, pivotWidth, width]

private theorem foldl_subtractScaled_width {k : Nat} (terms : List (α × List α)) (values : List α)
    (width : values.length = k) (widths : ∀ term ∈ terms, term.2.length = k) :
    (terms.foldl (fun values (factor, row) => subtractScaled factor row values) values).length =
      k := by
  induction terms generalizing values with
  | nil => exact width
  | cons term terms ih =>
    apply ih
    · simp [subtractScaled, width, widths term List.mem_cons_self]
    · intro other member
      exact widths other (List.mem_cons_of_mem _ member)

/-- A solution has a row for each unknown, as wide as the right-hand sides. -/
theorem solve_shape {k n : Nat} {equations : List (Equation α)} {solution : Matrix α}
    (widths : ∀ e ∈ equations, e.values.length = k) (solved : solve n equations = .ok solution) :
    solution.length = n ∧ ∀ row ∈ solution, row.length = k := by
  induction n generalizing equations solution with
  | zero =>
    cases solved
    exact ⟨rfl, nofun⟩
  | succ n ih =>
    cases equations with
    | nil => cases solved
    | cons first rest =>
      have members := takePivot_perm first rest
      simp only [solve] at solved
      generalize takePivot first rest = choice at *
      obtain ⟨⟨coefficients, values⟩, others⟩ := choice
      have pivotWidth : values.length = k :=
        widths _ (members.mem_iff.mp List.mem_cons_self)
      cases coefficients with
      | nil => cases solved
      | cons lead later =>
        simp only at solved
        split at solved
        · cases solved
        · cases below : solve n (others.map (eliminate lead later values)) with
          | error fault => rw [below] at solved; cases solved
          | ok rows =>
            rw [below] at solved
            obtain ⟨count, rowWidths⟩ := ih (by
              intro e member
              obtain ⟨other, among, rfl⟩ := List.mem_map.mp member
              exact eliminate_width pivotWidth
                (widths _ (members.mem_iff.mp (List.mem_cons_of_mem _ among)))) below
            cases solved
            refine ⟨by simp [count], ?_⟩
            intro row member
            rcases List.mem_cons.mp member with rfl | member
            · rw [List.length_map]
              apply foldl_subtractScaled_width _ _ pivotWidth
              intro term among
              exact rowWidths _ (List.of_mem_zip among).2
            · exact rowWidths row member

end RasterEdit.Matrix
