import SmallC.Proofs.Semantics.Execution
import SmallC.Proofs.Semantics.Processor

/-!
# Functions on their own

The graph of a function and the lines of its assembly, each run without the functions that it calls.
A call is a black box on both sides: the graph gets an answer for each of its calls, and the lines
go on with whatever processor the call leaves behind.  Runs that have ended stay as they are.
-/

namespace SmallC

/-! ## Graphs -/

namespace Execution

/-- The run of one graph, with its calls so far. -/
inductive GraphRun where
  | running (active : Activation) (calls : Trace)
  | returned (value : Option Int32) (calls : Trace)
  | faulted (calls : Trace)
  /-- There is no way to go on. -/
  | stuck (calls : Trace)

namespace GraphRun

/-- A run that has not ended. -/
def Running (run : GraphRun) : Prop :=
  ∃ active calls, run = .running active calls

/-- Makes one move.  A call gets its answer by the number of calls before it. -/
def makeMove (answers : Nat → Int32) (active : Activation) (calls : Trace) : Move → GraphRun
  | .go next => .running next calls
  | .fault => .faulted calls
  | .call target function arguments =>
    let answer := answers calls.length
    .running (World.resume target active answer) (calls ++ [⟨function, arguments, answer⟩])
  | .leave value => .returned value calls

/-- One step of a run. -/
def step (answers : Nat → Int32) : GraphRun → GraphRun
  | .running active calls =>
    match active.move? with
    | none => .stuck calls
    | some move => makeMove answers active calls move
  | ended => ended

end GraphRun

end Execution

/-! ## Lines -/

namespace Assembly

/-- The lines after the first one that defines a label. -/
def Line.after? (label : String) : List Line → Option (List Line)
  | [] => none
  | first :: others => if first = .label label then some others else after? label others

/-- A call that was made: the function and the processor at the call. -/
structure MadeCall where
  function : String
  processor : Processor

/-- The run of lines, with the calls so far. -/
inductive CodeRun where
  /-- The lines that come next. -/
  | running (next : List Line) (processor : Processor) (calls : List MadeCall)
  /-- Control has gone to an address that was on the stack. -/
  | returned (address : BitVec 64) (processor : Processor) (calls : List MadeCall)
  | faulted (calls : List MadeCall)
  /-- There is no line to go on with. -/
  | stuck (calls : List MadeCall)

/-- What lines are run in. -/
structure Surroundings where
  /-- The whole text, in which labels are looked up. -/
  lines : List Line
  hardware : Hardware
  /-- The processor that a call leaves behind, by the number of calls before it. -/
  call : Nat → String → Processor → Processor

namespace CodeRun

/-- A run that has not ended. -/
def Running (run : CodeRun) : Prop :=
  ∃ next processor calls, run = .running next processor calls

variable (surroundings : Surroundings)

/-- Goes on after an instruction that other lines follow. -/
def proceed (next : List Line) (calls : List MadeCall) : Effect → CodeRun
  | .next processor => .running next processor calls
  | .fault => .faulted calls
  | .jump label processor =>
    match Line.after? label surroundings.lines with
    | some target => .running target processor calls
    | none => .stuck calls
  | .call function processor =>
    .running next (surroundings.call calls.length function processor)
      (calls ++ [⟨function, processor⟩])
  | .ret address processor => .returned address processor calls

/-- One step of a run.  Lines without an instruction do nothing. -/
def step : CodeRun → CodeRun
  | .running [] _ calls => .stuck calls
  | .running (.instr instr :: next) processor calls =>
    proceed surroundings next calls (instr.effect surroundings.hardware processor)
  | .running (_ :: next) processor calls => .running next processor calls
  | ended => ended

variable {surroundings}

theorem step_of_not_running {run : CodeRun} (ended : ¬run.Running) :
    run.step surroundings = run := by
  cases run with
  | running next processor calls => exact absurd ⟨next, processor, calls, rfl⟩ ended
  | returned address processor calls | faulted calls | stuck calls => rfl

theorem iterate_of_not_running {run : CodeRun} {count further : Nat}
    (ended : ¬((step surroundings)^[count] run).Running) (later : count ≤ further) :
    (step surroundings)^[further] run = (step surroundings)^[count] run := by
  obtain ⟨more, rfl⟩ := Nat.exists_eq_add_of_le later
  rw [Nat.add_comm, Function.iterate_add_apply]
  exact Function.iterate_fixed (step_of_not_running ended) more

end CodeRun

end Assembly

end SmallC
