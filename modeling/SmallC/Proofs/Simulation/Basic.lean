import SmallC.Proofs.Scope.Distinct
import SmallC.Proofs.Semantics.Execution

/-!
# Machines that follow an evaluation

A machine simulates an evaluation if it comes to a state that fits the outcome.  Where the evaluation
gives a result, the machine reaches a state with a given property; where it faults, the machine does;
and where it runs out of fuel, the machine runs for at least as many steps.  Simulations are composed
in the same way as evaluations.
-/

namespace SmallC.Execution

open Evaluation

variable {α β : Type} {world : World}

/-! ## Simulation -/

/-- A machine that does what the outcome of an evaluation says.  The evaluation may not be invalid;
where a value does not exist nothing is asked of the machine. -/
def World.Simulates (world : World) (limit : Nat) (machine : Machine) (outcome : Except Halt α)
    (goal : α → Machine → Prop) : Prop :=
  match outcome with
  | .ok result => ∃ count, goal result (world.step^[count] machine)
  | .error ⟨.fault, trace⟩ => world.Reaches machine (.faulted trace)
  | .error ⟨.timeout, trace⟩ =>
    ∃ count ≥ limit, ∃ active callers, world.step^[count] machine = .running active callers trace
  | .error ⟨.indeterminate, _⟩ => True
  | .error ⟨.invalid, _⟩ => False

namespace World.Simulates

variable {limit : Nat} {machine : Machine} {outcome : Except Halt α} {goal : α → Machine → Prop}

theorem ok {result : α} (holds : goal result machine) :
    world.Simulates limit machine (.ok result) goal :=
  ⟨0, holds⟩

/-- Steps before a simulation. -/
theorem after (count : Nat)
    (simulates : world.Simulates limit (world.step^[count] machine) outcome goal) :
    world.Simulates (limit + count) machine outcome goal := by
  match outcome with
  | .ok result =>
    obtain ⟨further, holds⟩ := simulates
    exact ⟨further + count, by rwa [Function.iterate_add_apply]⟩
  | .error ⟨.fault, trace⟩ =>
    obtain ⟨further, faulted⟩ := simulates
    exact ⟨further + count, by rwa [Function.iterate_add_apply]⟩
  | .error ⟨.timeout, trace⟩ =>
    obtain ⟨further, enough, running⟩ := simulates
    exact ⟨further + count, Nat.add_le_add_right enough count, by
      rwa [Function.iterate_add_apply]⟩
  | .error ⟨.indeterminate, _⟩ => trivial

theorem mono (simulates : world.Simulates limit machine outcome goal) {fewer : Nat}
    (smaller : fewer ≤ limit) : world.Simulates fewer machine outcome goal := by
  match outcome with
  | .ok result | .error ⟨.fault, trace⟩ => exact simulates
  | .error ⟨.timeout, trace⟩ =>
    obtain ⟨count, enough, running⟩ := simulates
    exact ⟨count, Nat.le_trans smaller enough, running⟩
  | .error ⟨.indeterminate, _⟩ => trivial

/-- A step before a simulation counts. -/
theorem step {next : Machine} (stepped : world.step machine = next)
    (simulates : world.Simulates limit next outcome goal) :
    world.Simulates (limit + 1) machine outcome goal := by
  refine after 1 ?_
  rwa [Function.iterate_one, stepped]

/-- A step before a simulation need not be counted. -/
theorem of_step {next : Machine} (stepped : world.step machine = next)
    (simulates : world.Simulates limit next outcome goal) :
    world.Simulates limit machine outcome goal :=
  (simulates.step stepped).mono (Nat.le_succ limit)

theorem imp (simulates : world.Simulates limit machine outcome goal) {weaker : α → Machine → Prop}
    (implies : ∀ result machine, goal result machine → weaker result machine) :
    world.Simulates limit machine outcome weaker := by
  match outcome with
  | .ok result =>
    obtain ⟨count, holds⟩ := simulates
    exact ⟨count, implies _ _ holds⟩
  | .error ⟨.fault, trace⟩ | .error ⟨.timeout, trace⟩ => exact simulates
  | .error ⟨.indeterminate, _⟩ => trivial

/-- One evaluation after another. -/
theorem bind (simulates : world.Simulates limit machine outcome goal)
    {next : α → Except Halt β} {goalAfter : β → Machine → Prop}
    (further : ∀ result machine, goal result machine →
      world.Simulates limit machine (next result) goalAfter) :
    world.Simulates limit machine (outcome >>= next) goalAfter := by
  match outcome with
  | .ok result =>
    obtain ⟨count, holds⟩ := simulates
    exact ((further result _ holds).after count).mono (Nat.le_add_right limit count)
  | .error ⟨.fault, trace⟩ | .error ⟨.timeout, trace⟩ => exact simulates
  | .error ⟨.indeterminate, _⟩ => trivial

end World.Simulates

/-! ## Variables and slots -/

/-- A slot holds a value, if there is one. -/
def Holds (store : Store) (value : Option Int32) (slot : Slot) : Prop :=
  ∀ number ∈ value, store slot = number

/-- The slots of the variables in scope hold their values. -/
def Agrees (slots : Scopes Slot) (scopes : Scopes (Option Int32)) (store : Store) : Prop :=
  Scopes.Related (Holds store) scopes slots

namespace Agrees

variable {slots : Scopes Slot} {scopes : Scopes (Option Int32)} {store : Store}

/-- What other slots hold does not matter. -/
theorem congr (agrees : Agrees slots scopes store) {after : Store}
    (same : ∀ entry ∈ slots.all.flatten, after entry.2 = store entry.2) :
    Agrees slots scopes after := by
  refine Scopes.Related.imp_of_mem agrees fun entry member value holds number isNumber => ?_
  rw [same entry member]
  exact holds number isNumber

/-- A variable can be read unless it has no value. -/
theorem read {state : State} (agrees : Agrees slots state.scopes store) {name : String} {slot : Slot}
    (found : slots.lookup? name = some slot) :
    state.read name = .ok (store slot) ∨ state.read name = .error ⟨.indeterminate, state.trace⟩ := by
  have related := agrees.lookup? name
  rw [found] at related
  unfold State.read
  cases value_eq : state.scopes.lookup? name with
  | none => rw [value_eq] at related; cases related
  | some value =>
    rw [value_eq] at related
    cases related with
    | some holds =>
      cases value with
      | none => exact .inr rfl
      | some number => exact .inl (congrArg Except.ok (holds number rfl).symm)

/-- A variable in scope can be assigned to, and storing the value keeps the agreement. -/
theorem write {state : State} (agrees : Agrees slots state.scopes store) (distinct : slots.Distinct)
    {name : String} {slot : Slot} (found : slots.lookup? name = some slot) (value : Int32) :
    ∃ scopes, state.write name value = .ok ⟨scopes, state.trace⟩ ∧
      Agrees slots scopes (Function.update store slot value) := by
  have related := agrees.lookup? name
  rw [found] at related
  refine ⟨state.scopes.modify name fun _ => some value, ?_, ?_⟩
  · unfold State.write
    cases value_eq : state.scopes.lookup? name with
    | none => rw [value_eq] at related; cases related
    | some old => rfl
  · refine Scopes.Related.modify agrees distinct found ?_ ?_
    · intro old other different holds number isNumber
      rw [Function.update_of_ne different]
      exact holds number isNumber
    · rintro old - number ⟨⟩
      exact Function.update_self ..

theorem enter (agrees : Agrees slots scopes store) : Agrees slots.enter scopes.enter store :=
  Scopes.Related.enter agrees

/-- A new variable has no value. -/
theorem declare (agrees : Agrees slots scopes store) (name : String) (slot : Slot) :
    Agrees (slots.declare name slot) (scopes.declare name none) store :=
  Scopes.Related.declare agrees name nofun

end Agrees

/-! ## Steps -/

section Step

variable {callers : List (Slot × Activation)} {trace : Trace}

/-- One step on an instruction. -/
theorem step_of_perform {active : Activation} {block : BasicBlock} {instruction : Instruction}
    {action : Action} (found : active.graph.blocks.get? active.block = some block)
    (fetched : block.instructions[active.index]? = some instruction)
    (performed : perform active.store instruction = some action) :
    world.step (.running active callers trace) =
      world.makeMove active callers trace (action.move active) := by
  simp only [World.step, Activation.move?, found, fetched, performed, Option.map_some]

/-- One step on the way out of a block. -/
theorem step_of_terminator {active : Activation} {block : BasicBlock} {terminator : Terminator}
    (found : active.graph.blocks.get? active.block = some block)
    (ended : active.index = block.instructions.length) (exit : block.terminator = .ok terminator) :
    world.step (.running active callers trace) =
      world.makeMove active callers trace
        (moveOut active (successor? active.store terminator)) := by
  have fetched : block.instructions[active.index]? = none := by
    rw [ended, List.getElem?_length]
  simp only [World.step, Activation.move?, found, fetched, exit]

end Step

end SmallC.Execution
