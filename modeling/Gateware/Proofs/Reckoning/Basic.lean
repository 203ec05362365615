import Gateware.Proofs.Picked

/-!
# Reckonings

A reckoning is a computation of positions that leaves the arithmetic open: what becomes of an exact
sum, difference or opposite is settled from outside.  Under the wrapping arithmetic of positions it
is a run in words; under the identity it is the run in exact arithmetic.  If no sum along the first
run leaves the positions, both come to the same result.
-/

set_option autoImplicit false

namespace Gateware

variable {Result Next : Type}

inductive Reckoning (Result : Type) where
  | done (result : Result)
  | settle (exact : Int) (next : Int → Reckoning Result)

namespace Reckoning

protected def bind (first : Reckoning Result) (next : Result → Reckoning Next) : Reckoning Next :=
  match first with
  | .done result => next result
  | .settle exact later => .settle exact fun held => (later held).bind next

instance : Monad Reckoning where
  pure := .done
  bind := Reckoning.bind

def sum (exact : Int) : Reckoning Int := .settle exact .done

def run (hold : Int → Int) : Reckoning Result → Result
  | .done result => result
  | .settle exact next => (next (hold exact)).run hold

def sums (hold : Int → Int) : Reckoning Result → List Int
  | .done _ => []
  | .settle exact next => exact :: (next (hold exact)).sums hold

/-- No sum of the run leaves the positions. -/
def Exact (reckoning : Reckoning Result) : Prop :=
  ∀ exact ∈ reckoning.sums Position.wrap, Position.Holds exact

/-- The run comes to a result, and no sum of it leaves the positions. -/
def Yields (reckoning : Reckoning Result) (result : Result) : Prop :=
  reckoning.run Position.wrap = result ∧ reckoning.Exact

variable {hold : Int → Int} {first : Reckoning Result} {next : Result → Reckoning Next}
  {condition : Prop} [Decidable condition] {yes no : Reckoning Result} {exact : Int}

/-! ## Runs and sums of the constructions -/

@[simp]
theorem run_pure {result : Result} : (pure result : Reckoning Result).run hold = result := rfl

@[simp]
theorem run_sum : (sum exact).run hold = hold exact := by
  rw [sum, run, run]

@[simp]
theorem run_bind : (first >>= next).run hold = (next (first.run hold)).run hold := by
  induction first with
  | done result => rfl
  | settle exact later ih => exact ih (hold exact)

theorem run_sum_bind {next : Int → Reckoning Next} :
    (sum exact >>= next).run hold = (next (hold exact)).run hold := by
  rw [run_bind, run_sum]

@[simp]
theorem run_ite :
    (if condition then yes else no).run hold = if condition then yes.run hold else no.run hold :=
  apply_ite (run hold) condition yes no

theorem sums_bind :
    (first >>= next).sums hold = first.sums hold ++ (next (first.run hold)).sums hold := by
  induction first with
  | done result => rfl
  | settle exact later ih => exact congrArg (exact :: ·) (ih (hold exact))

@[simp]
theorem exact_pure {result : Result} : (pure result : Reckoning Result).Exact := nofun

@[simp]
theorem exact_sum : (sum exact).Exact ↔ Position.Holds exact := by
  simp [Exact, sums, sum]

@[simp]
theorem exact_bind :
    (first >>= next).Exact ↔ first.Exact ∧ (next (first.run Position.wrap)).Exact := by
  simp only [Exact, sums_bind, List.forall_mem_append]

theorem exact_sum_bind {next : Int → Reckoning Next} : (sum exact >>= next).Exact ↔
    Position.Holds exact ∧ (next (Position.wrap exact)).Exact := by
  rw [exact_bind, exact_sum, run_sum]

@[simp]
theorem exact_ite :
    (if condition then yes else no).Exact ↔ if condition then yes.Exact else no.Exact := by
  split <;> rfl

/-- A run that stays among the positions is the run in exact arithmetic. -/
theorem Exact.run_eq {reckoning : Reckoning Result} (exact : reckoning.Exact) :
    reckoning.run Position.wrap = reckoning.run id := by
  induction reckoning with
  | done result => rfl
  | settle sum next ih =>
      have holds : Position.Holds sum := exact sum List.mem_cons_self
      have later : (next sum).Exact := by
        intro other listed
        apply exact other
        rw [sums, holds.wrap_eq]
        exact List.mem_cons_of_mem _ listed
      rw [run, run, holds.wrap_eq]
      exact ih sum later

end Reckoning

end Gateware
