import SmallC.Proofs.Graph.Extension
import SmallC.Proofs.Simulation.Basic

/-!
# Sites

A site is a place where lowered code runs beside the evaluation of the program that it was lowered
from.  What the machine does there is said by the code that was written between two moments of
lowering: it runs from where the code ended at the first moment to where it ended at the second.
-/

namespace SmallC

open Evaluation Execution SmallC.Graph

/-- A running function in a finished graph, beside an evaluation of its code: the machine, how the
evaluation calls functions, and for how many steps the machine runs at least when the evaluation runs
out of fuel. -/
structure Site where
  world : World
  call : Caller
  limit : Nat
  final : Graph
  callers : List (Slot × Activation)

namespace Site

variable (site : Site)

/-- The machine where the code ends that was written so far. -/
def atEnd (graph : Graph) (store : Store) (trace : Trace) : Machine :=
  .running ⟨site.final, graph.current, graph.position, store⟩ site.callers trace

/-- The machine at the start of a block. -/
def atStart (id : BlockId) (store : Store) (trace : Trace) : Machine :=
  .running ⟨site.final, id, 0, store⟩ site.callers trace

/-- The code written so far ends at the start of a block. -/
def Opens (graph : Graph) (id : BlockId) : Prop :=
  ∀ store trace, site.atEnd graph store trace = site.atStart id store trace

/-- After the code written so far comes a jump to a block. -/
def JumpsTo (graph : Graph) (target : BlockId) : Prop :=
  ∀ store trace, site.world.step (site.atEnd graph store trace) = site.atStart target store trace

/-- After the code written so far comes a branch on a slot to one of two blocks. -/
def BranchesTo (graph : Graph) (test : Slot) (onTrue onFalse : BlockId) : Prop :=
  ∀ store trace, site.world.step (site.atEnd graph store trace) =
    site.atStart (if store test = 0 then onFalse else onTrue) store trace

end Site

variable {site : Site} {graph : Graph} {instruction : Instruction} {store : Store} {id : BlockId}

/-! ## Instructions -/

section

variable (known : graph.HasBlock graph.current)
include known

/-- The instruction that was added to a graph is the next one to run there. -/
theorem step_extended (steps : Steps (graph.extended instruction) site.final) {trace : Trace}
    {action : Action} (performed : perform store instruction = some action) :
    site.world.step (site.atEnd graph store trace) =
      site.world.makeMove ⟨site.final, graph.current, graph.position, store⟩ site.callers trace
        (action.move ⟨site.final, graph.current, graph.position, store⟩) := by
  obtain ⟨block, found, fetched⟩ := instruction_of_steps known steps
  exact step_of_perform found fetched performed

/-- An instruction that stores a value. -/
theorem step_storing (steps : Steps (graph.extended instruction) site.final) {trace : Trace}
    {target : Slot} {value : Int32}
    (performed : perform store instruction = some (storing store target (some value))) :
    site.world.step (site.atEnd graph store trace) =
      site.atEnd (graph.extended instruction) (Function.update store target value) trace := by
  rw [step_extended known steps performed]
  simp only [storing, Action.move, World.makeMove, Activation.advance, Site.atEnd,
    position_extended known, changed_current]

/-- An instruction that stores the result of an operator, which may fault. -/
theorem simulates_checked {limit : Nat} {state : State}
    (steps : Steps (graph.extended instruction) site.final) {target : Slot} {result : Option Int32}
    (performed : perform store instruction = some (storing store target result)) :
    site.world.Simulates limit (site.atEnd graph store state.trace) (state.checked result)
      fun value machine =>
        machine = site.atEnd (graph.extended instruction) (Function.update store target value)
          state.trace := by
  cases result with
  | none => exact ⟨1, step_extended known steps performed⟩
  | some value => exact .of_step (step_storing known steps performed) (.ok rfl)

end

/-! ## Ways out of blocks -/

/-- A block that is entered is where the code goes on. -/
theorem opens_entered {change : BasicBlock → BasicBlock} (formed : graph.WellFormed)
    (linked : Step graph (graph.changed graph.current change)) (waits : id ∉ graph.order) :
    site.Opens ((graph.changed graph.current change).entered id) id := by
  intro store trace
  simp only [Site.atEnd, Site.atStart, position_entered (formed.step linked) waits, entered_current]

/-- New blocks do not change where the code goes on. -/
theorem atEnd_createdAll (known : graph.HasBlock graph.current) (tags : List String) (store : Store)
    (trace : Trace) : site.atEnd (graph.createdAll tags) store trace = site.atEnd graph store trace := by
  simp only [Site.atEnd, position_createdAll known, createdAll_current]

/-- A jump that was added to a graph is what comes next there. -/
theorem jumpsTo_jumped (formed : graph.WellFormed) {target : BlockId}
    (targetKnown : graph.HasBlock target) (idKnown : graph.HasBlock id) (can : graph.CanEnter id)
    (steps : Steps (graph.jumped target id) site.final) : site.JumpsTo graph target := by
  intro store trace
  obtain ⟨block, found, ended⟩ :=
    exit_of_steps formed (.jumping targetKnown) (fun _ => rfl) idKnown can.waits steps
  have exit : BasicBlock.terminator
      { block with exitTrue := some target, exitFalse := none, test := none } =
      .ok (.jump target) :=
    rfl
  exact step_of_terminator found ended.symm exit

/-- A branch that was added to a graph is what comes next there. -/
theorem branchesTo_branched (formed : graph.WellFormed) {test : Slot} {onTrue onFalse : BlockId}
    (testKnown : graph.HasSlot test) (onTrueKnown : graph.HasBlock onTrue)
    (onFalseKnown : graph.HasBlock onFalse) (idKnown : graph.HasBlock id) (can : graph.CanEnter id)
    (steps : Steps (graph.branched test onTrue onFalse id) site.final) :
    site.BranchesTo graph test onTrue onFalse := by
  intro store trace
  obtain ⟨block, found, ended⟩ := exit_of_steps formed
    (.branching testKnown onTrueKnown onFalseKnown) (fun _ => rfl) idKnown can.waits steps
  have exit : BasicBlock.terminator
      { block with exitTrue := some onTrue, exitFalse := some onFalse, test := some test } =
      .ok (.branch test onTrue onFalse) :=
    rfl
  exact step_of_terminator found ended.symm exit

theorem Site.JumpsTo.of_createdAll {tags : List String} {target : BlockId}
    (jumps : site.JumpsTo (graph.createdAll tags) target) (known : graph.HasBlock graph.current) :
    site.JumpsTo graph target :=
  fun store trace => by rw [← atEnd_createdAll known tags, jumps]

theorem Site.BranchesTo.of_createdAll {tags : List String} {test : Slot} {onTrue onFalse : BlockId}
    (branches : site.BranchesTo (graph.createdAll tags) test onTrue onFalse)
    (known : graph.HasBlock graph.current) : site.BranchesTo graph test onTrue onFalse :=
  fun store trace => by rw [← atEnd_createdAll known tags, branches]

end SmallC
