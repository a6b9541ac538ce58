import RasterEdit.Proofs.Raster.Buffer

/-!
# Numbers of samples

The numbers that bit patterns stand for, kind by kind: integers, or binary values that may be NaN.
A NaN is no number, and not even equal to itself.
-/

set_option autoImplicit false

namespace RasterEdit

namespace SampleKind

/-- The integer that a sample stands for, if its kind has no fractions. -/
def integer? (kind : SampleKind) (s : kind.Sample) : Option Int :=
  match kind.form with
  | .truth | .natural => some s.toNat
  | .integer => some s.toInt
  | .real _ => none

def isNaN (kind : SampleKind) (s : kind.Sample) : Bool :=
  match kind.form with
  | .real format => (Binary.ofBits format s.toNat).isNaN
  | _ => false

/-- The order of the numbers that samples stand for; NaN is not ordered. -/
def AtMost (kind : SampleKind) (s t : kind.Sample) : Prop :=
  match kind.form with
  | .truth | .natural => s.toNat ≤ t.toNat
  | .integer => s.toInt ≤ t.toInt
  | .real format => Binary.le (Binary.ofBits format s.toNat) (Binary.ofBits format t.toNat) = true

/-- The end of the range of a kind: the greatest integer, or one. -/
def full (kind : SampleKind) : kind.Sample :=
  match kind.form with
  | .truth | .natural => BitVec.allOnes _
  | .integer => BitVec.intMax _
  | .real _ => kind.encode 1

section Integers

variable {kind : SampleKind}

theorem integer?_of_natural (natural : kind.form = .natural) (s : kind.Sample) :
    kind.integer? s = some (s.toNat : Int) := by
  simp only [integer?, natural]

theorem integer?_of_integer (signed : kind.form = .integer) (s : kind.Sample) :
    kind.integer? s = some s.toInt := by
  simp only [integer?, signed]

variable {s t : kind.Sample} {n m : Int}

/-- Samples that stand for integers are ordered as these are. -/
theorem atMost_iff (left : kind.integer? s = some n) (right : kind.integer? t = some m) :
    kind.AtMost s t ↔ n ≤ m := by
  cases form : kind.form with
  | truth | natural | integer =>
    simp only [integer?, form, Option.some.injEq] at left right
    simp only [AtMost, form, ← left, ← right, Int.ofNat_le]
  | real format =>
    simp only [integer?, form] at left
    cases left

theorem isNaN_of_integer? (integer : kind.integer? s = some n) : kind.isNaN s = false := by
  cases form : kind.form with
  | truth | natural | integer => simp only [isNaN, form]
  | real format =>
    simp only [integer?, form] at integer
    cases integer

end Integers

/-- A number is equal to itself unless it is NaN. -/
theorem sameNumber_self (kind : SampleKind) (s : kind.Sample) :
    kind.sameNumber s s = !kind.isNaN s := by
  cases form : kind.form with
  | real format =>
    simp only [sameNumber, isNaN, form]
    cases Binary.ofBits format s.toNat with
    | nan => rfl
    | signed s rank h => simp [Binary.equal, Binary.compare?, Binary.isNaN]
  | _ => simp [sameNumber, isNaN, form]

end SampleKind

/-- Comparing a raster with itself fails exactly if a sample is NaN. -/
theorem Raster.sameNumbers_self_iff {r : Raster} : r.sameNumbers r = true ↔
    ∀ pattern ∈ r.toBlock.patterns, r.kind.isNaN (BitVec.ofNat _ pattern) = false := by
  unfold sameNumbers Block.sameNumbers
  simp only [element_toBlock, beq_self_eq_true, Bool.true_and]
  rw [Array.zip, Array.zipWith_self, Array.all_map, Array.all_eq_true_iff_forall_mem]
  simp only [Function.comp_apply, SampleKind.sameNumber_self, Bool.not_eq_true']

end RasterEdit
