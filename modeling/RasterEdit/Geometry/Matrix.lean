import RasterEdit.Failure

/-!
# Matrices

Products and inverses over any kind of number, so that the same definitions serve binary64
arithmetic and exact reasoning. A matrix is the list of its rows. Linear systems are solved by
elimination with the first entry of greatest magnitude as pivot.
-/

set_option autoImplicit false

namespace RasterEdit

/-- Numbers with the four operations and the comparisons that elimination needs. -/
class Scalar (α : Type) extends Add α, Sub α, Mul α, Div α, Neg α, Zero α, One α where
  magnitude : α → α
  isZero : α → Bool
  isLess : α → α → Bool

instance {f : Format} : Scalar (Binary f) where
  zero := Binary.zero false
  one := Binary.ofInt f 1
  magnitude := Binary.abs
  isZero := Binary.isZero
  isLess := Binary.lt

abbrev Matrix (α : Type) : Type := List (List α)

namespace Matrix

variable {α : Type} [Scalar α]

/-- Sum of the products of corresponding entries, from the left. -/
def dot (row column : List α) : α :=
  match List.zipWith (· * ·) row column with
  | [] => 0
  | first :: rest => rest.foldl (· + ·) first

/-- Entries at one position of every row. -/
def column (m : Matrix α) (j : Nat) : List α := m.filterMap (·[j]?)

def mul (a b : Matrix α) : Matrix α :=
  let width := (b.headD []).length
  a.map fun row => (List.range width).map fun j => dot row (b.column j)

def identity (n : Nat) : Matrix α :=
  (List.range n).map fun i => (List.range n).map fun j => if i = j then 1 else 0

/-- A linear equation for several right-hand sides at once. -/
structure Equation (α : Type) where
  coefficients : List α
  values : List α

/-- Position of the first equation whose leading coefficient is greatest in magnitude, counted
on from the equation at `best`. -/
def greatestLead (equations : List (Equation α)) : (position best : Nat) → (greatest : α) → Nat :=
  match equations with
  | [] => fun _ best _ => best
  | e :: rest => fun position best greatest =>
    let lead := Scalar.magnitude (e.coefficients.headD 0)
    if Scalar.isLess greatest lead then greatestLead rest (position + 1) position lead
    else greatestLead rest (position + 1) best greatest

/-- Takes out the equation with the greatest leading coefficient; the first equation moves to its
place. -/
def takePivot (first : Equation α) (rest : List (Equation α)) :
    Equation α × List (Equation α) :=
  match greatestLead rest 1 0 (Scalar.magnitude (first.coefficients.headD 0)) with
  | 0 => (first, rest)
  | k + 1 =>
    match rest[k]? with
    | none => (first, rest)
    | some pivot => (pivot, rest.take k ++ first :: rest.drop (k + 1))

/-- `b - factor · a` in every entry. -/
def subtractScaled (factor : α) (a b : List α) : List α :=
  List.zipWith (fun x y => y - factor * x) a b

/-- Subtracts a multiple of the pivot equation so that the leading unknown drops out. -/
def eliminate (lead : α) (pivot : List α) (values : List α) (e : Equation α) : Equation α :=
  match e.coefficients with
  | [] => e
  | c :: rest =>
    let factor := c / lead
    ⟨subtractScaled factor pivot rest, subtractScaled factor values e.values⟩

/-- Solves `n` equations in `n` unknowns; one row of the solution for each unknown. -/
def solve : (n : Nat) → List (Equation α) → Except MatrixFault (Matrix α)
  | 0, _ => .ok []
  | _ + 1, [] => .error .singular
  | n + 1, first :: rest =>
    let (pivot, others) := takePivot first rest
    match pivot.coefficients with
    | [] => .error .singular
    | lead :: later =>
      if Scalar.isZero lead then .error .singular
      else do
        let solved ← solve n (others.map (eliminate lead later pivot.values))
        let remaining := (List.zip later solved).foldl
          (fun values (factor, row) => subtractScaled factor row values) pivot.values
        return remaining.map (· / lead) :: solved

def inverse (m : Matrix α) : Except MatrixFault (Matrix α) :=
  if m.all (·.length == m.length) then
    solve m.length (List.zipWith Equation.mk m (identity m.length))
  else .error .notSquare

end Matrix

end RasterEdit
