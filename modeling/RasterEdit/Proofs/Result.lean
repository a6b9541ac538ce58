import RasterEdit.Failure

/-!
# Results

How a computation that may fail is taken apart at its binds, when it succeeds, which kinds of
failures it has, and when two of them end alike.
-/

set_option autoImplicit false

namespace RasterEdit.Result

variable {α β : Type}

@[simp] theorem ok_bind (a : α) (f : α → Result β) : ((.ok a : Result α) >>= f) = f a := rfl

@[simp] theorem error_bind (fault : Failure) (f : α → Result β) :
    ((.error fault : Result α) >>= f) = .error fault := rfl

@[simp] theorem throw_eq_error (fault : Failure) : (throw fault : Result α) = .error fault := rfl

theorem bind_eq_ok {x : Result α} {f : α → Result β} {b : β} :
    (x >>= f) = .ok b ↔ ∃ a, x = .ok a ∧ f a = .ok b := by
  cases x with
  | error fault => simp
  | ok a => simp

/-! ## Success -/

/-- A computation gives a value. -/
def Succeeds (x : Result α) : Prop := ∃ a, x = .ok a

@[simp] theorem succeeds_ok (a : α) : Succeeds (.ok a) := ⟨a, rfl⟩

@[simp] theorem not_succeeds_error (fault : Failure) : ¬Succeeds (.error fault : Result α) := nofun

theorem succeeds_bind {x : Result α} {f : α → Result β} :
    Succeeds (x >>= f) ↔ ∃ a, x = .ok a ∧ Succeeds (f a) := by
  cases x with
  | error fault => simp
  | ok a => simp

theorem succeeds_map {x : Result α} {f : α → β} : Succeeds (x.map f) ↔ Succeeds x := by
  cases x with
  | error fault => exact iff_of_false nofun (not_succeeds_error fault)
  | ok a => exact iff_of_true (succeeds_ok (f a)) (succeeds_ok a)

/-- A part whose success does not depend on what came before it. -/
theorem succeeds_bind_and {p : Prop} {x : Result α} {f : α → Result β}
    (rest : ∀ a, Succeeds (f a) ↔ p) : Succeeds (x >>= f) ↔ Succeeds x ∧ p := by
  cases x with
  | error fault => simp
  | ok a => simp [rest a]

/-! ## Kinds of failures -/

/-- Whatever a computation fails with is of a certain kind. -/
structure Raises (kind : Failure → Prop) (x : Result α) : Prop where
  of_error : ∀ fault, x = .error fault → kind fault

section Raises

variable {kind : Failure → Prop}

theorem raises_ok (a : α) : Raises kind (.ok a) := ⟨nofun⟩

theorem raises_error {fault : Failure} (ofKind : kind fault) :
    Raises kind (.error fault : Result α) := by
  constructor
  intro other same
  cases same
  exact ofKind

theorem raises_error_iff {fault : Failure} :
    Raises kind (.error fault : Result α) ↔ kind fault :=
  ⟨fun raises => raises.of_error fault rfl, raises_error⟩

theorem Raises.mono {wider : Failure → Prop} {x : Result α} (raises : Raises kind x)
    (weaker : ∀ {fault}, kind fault → wider fault) : Raises wider x :=
  ⟨fun fault failed => weaker (raises.of_error fault failed)⟩

theorem Raises.bind {x : Result α} {f : α → Result β} (first : Raises kind x)
    (second : ∀ a, Raises kind (f a)) : Raises kind (x >>= f) := by
  cases x with
  | error fault => exact raises_error (first.of_error fault rfl)
  | ok a => exact second a

/-- A part that only fails in a certain way leaves the question to what comes before it. -/
theorem raises_bind_iff {x : Result α} {f : α → Result β} (second : ∀ a, Raises kind (f a)) :
    Raises kind (x >>= f) ↔ Raises kind x := by
  cases x with
  | error fault => exact raises_error_iff.trans raises_error_iff.symm
  | ok a => exact iff_of_true (second a) (raises_ok a)

theorem Raises.ite {condition : Prop} [Decidable condition] {x y : Result α}
    (positive : condition → Raises kind x) (negative : ¬condition → Raises kind y) :
    Raises kind (if condition then x else y) := by
  split
  · next holds => exact positive holds
  · next fails => exact negative fails

theorem raises_throw {fault : Failure} (ofKind : kind fault) (f : α → Result β) :
    Raises kind ((throw fault : Result α) >>= f) := by
  rw [throw_eq_error, error_bind]
  exact raises_error ofKind

/-- A check that throws or lets the computation go on. -/
theorem Raises.guard {γ : Type} {condition : Prop} [Decidable condition] {fault : Failure}
    {f : γ → Result β} {next : Result β} (ofKind : kind fault) (goesOn : Raises kind next) :
    Raises kind (if condition then (throw fault : Result γ) >>= f else next) :=
  .ite (fun _ => raises_throw ofKind f) fun _ => goesOn

end Raises

/-! ## Two computations side by side -/

/-- Equal failures, or related values. -/
inductive Rel {α β : Type} (R : α → β → Prop) : Result α → Result β → Prop where
  | error (fault : Failure) : Rel R (.error fault) (.error fault)
  | ok {a : α} {b : β} (related : R a b) : Rel R (.ok a) (.ok b)

section Rel

variable {γ δ : Type} {R : α → β → Prop} {S : γ → δ → Prop}

theorem Rel.bind {x : Result α} {y : Result β} {f : α → Result γ} {g : β → Result δ}
    (first : Rel R x y) (second : ∀ a b, R a b → Rel S (f a) (g b)) :
    Rel S (x >>= f) (y >>= g) := by
  cases first with
  | error fault => exact .error fault
  | ok related => exact second _ _ related

theorem Rel.mono {R' : α → β → Prop} {x : Result α} {y : Result β} (related : Rel R x y)
    (weaker : ∀ a b, R a b → R' a b) : Rel R' x y := by
  cases related with
  | error fault => exact .error fault
  | ok related => exact .ok (weaker _ _ related)

theorem Rel.refl {Q : α → α → Prop} (reflexive : ∀ a, Q a a) (x : Result α) : Rel Q x x := by
  cases x with
  | error fault => exact .error fault
  | ok a => exact .ok (reflexive a)

theorem Rel.meet {Q : α → α → Prop} {x y : Result α} {z : Result β} (left : Rel R x z)
    (right : Rel R y z) (join : ∀ a b c, R a c → R b c → Q a b) : Rel Q x y := by
  cases left with
  | error fault =>
    cases right
    exact .error fault
  | ok left =>
    cases right with
    | ok right => exact .ok (join _ _ _ left right)

theorem Rel.bind_same {x : Result α} {f : α → Result γ} {g : α → Result δ}
    (next : ∀ a, Rel S (f a) (g a)) : Rel S (x >>= f) (x >>= g) := by
  refine (Rel.refl (fun _ => rfl) x).bind ?_
  rintro a b rfl
  exact next a

theorem Rel.ite {condition : Prop} [Decidable condition] {x x' : Result α} {y y' : Result β}
    (positive : condition → Rel R x y) (negative : ¬condition → Rel R x' y') :
    Rel R (if condition then x else x') (if condition then y else y') := by
  split
  · next holds => exact positive holds
  · next fails => exact negative fails

end Rel

end RasterEdit.Result
