import Mathlib

/-!
# Steps that can fail

How a successful chain of steps comes apart: every step of it was successful.  Where failures matter
as well, a chain is followed with what holds of the results and what holds of the errors.
-/

namespace SmallC

variable {ε α β : Type}

/-- A chain succeeds exactly when its first step does and the rest does with what that step gives. -/
@[simp]
theorem bind_eq_ok_iff {first : Except ε α} {next : α → Except ε β} {result : β} :
    (first >>= next) = .ok result ↔ ∃ value, first = .ok value ∧ next value = .ok result := by
  cases first <;> simp [bind, Except.bind]

@[simp]
theorem ok_bind (value : α) (next : α → Except ε β) : (Except.ok value >>= next) = next value :=
  rfl

@[simp]
theorem pure_eq_ok (value : α) : (pure value : Except ε α) = .ok value :=
  rfl

/-- A step that succeeds on every entry of a list succeeds on the list. -/
theorem exists_mapM {step : α → Except ε β} {entries : List α}
    (succeeds : ∀ entry ∈ entries, ∃ result, step entry = .ok result) :
    ∃ results, entries.mapM step = .ok results := by
  induction entries with
  | nil => exact ⟨[], rfl⟩
  | cons first others ih =>
    rw [List.forall_mem_cons] at succeeds
    obtain ⟨result, first_eq⟩ := succeeds.1
    obtain ⟨results, others_eq⟩ := ih succeeds.2
    exact ⟨result :: results, by simp [first_eq, others_eq]⟩

/-- A step whose result passes a test succeeds. -/
theorem exists_ok_of_any {step : Except ε α} {test : α → Bool}
    (evaluated : step.toOption.any test = true) :
    ∃ result, step = .ok result ∧ test result = true := by
  cases step with
  | error error => cases evaluated
  | ok result => exact ⟨result, rfl, evaluated⟩

theorem exists_ok_of_isSome {step : Except ε α} (evaluated : step.toOption.isSome = true) :
    ∃ result, step = .ok result := by
  cases step with
  | error error => cases evaluated
  | ok result => exact ⟨result, rfl⟩

/-- How a step ends: with a result of which one thing holds, or with an error of which another
does. -/
def Outcome (fails : ε → Prop) (holds : α → Prop) : Except ε α → Prop
  | .ok result => holds result
  | .error error => fails error

namespace Outcome

variable {fails : ε → Prop} {holds : α → Prop} {after : β → Prop} {step : Except ε α}

/-- A chain of steps is followed step by step. -/
theorem bind {first : Except ε α} {next : α → Except ε β} (outcome : Outcome fails holds first)
    (rest : ∀ value, holds value → Outcome fails after (next value)) :
    Outcome fails after (first >>= next) := by
  cases first with
  | error error => exact outcome
  | ok value => exact rest value outcome

theorem mono {weaker : α → Prop} (outcome : Outcome fails holds step)
    (weaken : ∀ value, holds value → weaker value) : Outcome fails weaker step := by
  cases step with
  | error error => exact outcome
  | ok value => exact weaken value outcome

/-- The result of a step that may fail. -/
theorem eq_ok (outcome : Outcome fails holds step) :
    Outcome fails (fun value => step = .ok value) step := by
  cases step with
  | error error => exact outcome
  | ok value => rfl

/-- How a step ends, from what follows of either end. -/
theorem of_eq (ok : ∀ value, step = .ok value → holds value)
    (error : ∀ error, step = .error error → fails error) : Outcome fails holds step := by
  cases step with
  | error found => exact error found rfl
  | ok value => exact ok value rfl

theorem of_eq_ok {value : α} (outcome : Outcome fails holds step) (step_eq : step = .ok value) :
    holds value := by
  rwa [step_eq] at outcome

theorem of_eq_error {error : ε} (outcome : Outcome fails holds step) (step_eq : step = .error error) :
    fails error := by
  rwa [step_eq] at outcome

end Outcome

end SmallC
