import SmallC.Graph.Lowering
import SmallC.Proofs.Semantics.Evaluation

/-!
# Meaning of graphs

A graph runs block by block: the instructions of a block in order, where jumps and returns transfer
control at once, and then its way out.  Every running function has its own slots.  What a slot holds
before anything is stored into it, and what a call leaves behind whose function returns nothing, is
up to the world around the machine.
-/

namespace SmallC.Execution

/-! ## Instructions -/

/-- What the slots of a function hold. -/
abbrev Store := Slot → Int32

/-- What an instruction does. -/
inductive Action where
  /-- Goes on to the next instruction. -/
  | proceed (store : Store)
  | fault
  | call (target : Slot) (function : String) (arguments : List Int32)
  | leave (value : Option Int32)
  | jump (target : BlockId)

/-- The values of operands that have to be slots. -/
def valuesOf (store : Store) : List Operand → Option (List Int32)
  | [] => some []
  | .slot slot :: others => (valuesOf store others).map (store slot :: ·)
  | _ :: _ => none

/-- Stores the result of an operator, unless it faults. -/
def storing (store : Store) (target : Slot) : Option Int32 → Action
  | none => .fault
  | some value => .proceed (Function.update store target value)

/-- What an instruction does, if its operands are of the kinds that it needs. -/
def perform (store : Store) (instruction : Instruction) : Option Action :=
  match instruction.operation, instruction.operands with
  | .loadConstant, [.slot target, .literal value] => some (storing store target (some value))
  | .copyVariable, [.slot target, .slot source] =>
    some (storing store target (some (store source)))
  | .arithmetic op, [.slot target, .slot left, .slot right] =>
    some (storing store target (op.apply (store left) (store right)))
  | .compare op, [.slot target, .slot left, .slot right] =>
    some (storing store target (some (op.apply (store left) (store right))))
  | .unary op, [.slot target] => some (storing store target (some (op.apply (store target))))
  | .step op, [.slot target] => some (storing store target (some (op.apply (store target))))
  | .call, .slot target :: .function function :: arguments =>
    (valuesOf store arguments).map (.call target function)
  | .ret, [] => some (.leave none)
  | .ret, [.slot slot] => some (.leave (some (store slot)))
  | .jump, [.label target] => some (.jump target)
  | _, _ => none

/-- The block that comes after a block, if it does not return. -/
def successor? (store : Store) : Terminator → Option BlockId
  | .ret => none
  | .jump target => some target
  | .branch test onTrue onFalse => some (if store test = 0 then onFalse else onTrue)

section Perform

variable (store : Store) (target : Slot)

theorem perform_loadConstant (value : Int32) :
    perform store (.loadConstant target value) = some (storing store target (some value)) :=
  rfl

theorem perform_copy (source : Slot) :
    perform store (.copy target source) = some (storing store target (some (store source))) :=
  rfl

theorem perform_arithmetic (op : ArithmeticOp) (left right : Slot) :
    perform store (.arithmetic op target left right) =
      some (storing store target (op.apply (store left) (store right))) :=
  rfl

theorem perform_unary (op : UnaryOp) :
    perform store (.unary op target) = some (storing store target (some (op.apply (store target)))) :=
  rfl

theorem perform_step (op : StepOp) :
    perform store (.step op target) = some (storing store target (some (op.apply (store target)))) :=
  rfl

theorem valuesOf_slots (slots : List Slot) :
    valuesOf store (slots.map .slot) = some (slots.map store) := by
  induction slots with
  | nil => rfl
  | cons first others ih => simp [valuesOf, ih]

theorem perform_call (function : String) (arguments : List Slot) :
    perform store (.call target function arguments) =
      some (.call target function (arguments.map store)) := by
  simp [perform, Instruction.call, valuesOf_slots]

theorem perform_ret (value : Option Slot) :
    perform store (.ret value) = some (.leave (value.map store)) := by
  cases value <;> rfl

theorem perform_jump (block : BlockId) : perform store (.jump block) = some (.jump block) :=
  rfl

end Perform

/-! ## Functions -/

/-- A running function: where it is and what its slots hold. -/
structure Activation where
  graph : Graph
  block : BlockId
  /-- The number of the next instruction of the block. -/
  index : Nat
  store : Store

namespace Activation

/-- The activation at the next instruction. -/
def advance (active : Activation) (store : Store) : Activation :=
  { active with index := active.index + 1, store := store }

/-- The activation at the start of a block. -/
def goTo (active : Activation) (target : BlockId) : Activation :=
  { active with block := target, index := 0 }

end Activation

/-- What a running function does next. -/
inductive Move where
  | go (next : Activation)
  | fault
  | call (target : Slot) (function : String) (arguments : List Int32)
  | leave (value : Option Int32)

/-- What an instruction makes a running function do. -/
def Action.move (active : Activation) : Action → Move
  | .proceed store => .go (active.advance store)
  | .fault => .fault
  | .call target function arguments => .call target function arguments
  | .leave value => .leave value
  | .jump target => .go (active.goTo target)

/-- What the way out of a block makes a running function do. -/
def moveOut (active : Activation) : Option BlockId → Move
  | none => .leave none
  | some target => .go (active.goTo target)

/-- What a running function does next, if it is at a proper instruction or way out. -/
def Activation.move? (active : Activation) : Option Move :=
  match active.graph.blocks.get? active.block with
  | none => none
  | some block =>
    match block.instructions[active.index]? with
    | some instruction => (perform active.store instruction).map (·.move active)
    | none =>
      match block.terminator with
      | .error _ => none
      | .ok terminator => some (moveOut active (successor? active.store terminator))

/-! ## Machines -/

/-- A machine that runs graphs. -/
inductive Machine where
  /-- A running function, and the functions that wait for a call to return, each with the slot for
  its result. -/
  | running (active : Activation) (callers : List (Slot × Activation)) (trace : Trace)
  | returned (value : Option Int32) (trace : Trace)
  | faulted (trace : Trace)
  /-- There is no way to go on. -/
  | stuck (trace : Trace)

/-- The calls of a machine that were answered from outside so far. -/
def Machine.trace : Machine → Trace
  | .running _ _ trace => trace
  | .returned _ trace => trace
  | .faulted trace => trace
  | .stuck trace => trace

/-- A machine that has not ended. -/
def Machine.Running (machine : Machine) : Prop :=
  ∃ active callers trace, machine = .running active callers trace

/-- What a machine runs and what is around it. -/
structure World where
  graphs : List Graph
  oracle : Oracle
  /-- What storage holds that nothing was stored into.  It may depend on all that happened. -/
  leftover : Machine → Store

/-- The name of an external function, from the target of a call. -/
def externalName? (target : String) : Option String :=
  let chars := target.toList
  let suffix := Lowering.externalSuffix.toList
  if suffix <:+ chars then
    some (String.ofList (chars.take (chars.length - suffix.length)))
  else
    none

/-- What slots hold after values are stored into some of them. -/
def storeAll (store : Store) : List Slot → List Int32 → Store
  | slot :: slots, value :: values => Function.update (storeAll store slots values) slot value
  | _, _ => store

namespace World

variable (world : World)

/-- The graph of a given name. -/
def graph? (name : String) : Option Graph :=
  world.graphs.find? (·.name == name)

/-- The activation of a function at its start. -/
def start? (graph : Graph) (values : List Int32) (leftover : Store) : Option Activation :=
  if graph.parameters.length = values.length then
    graph.firstBlock?.map fun entry =>
      ⟨graph, entry, 0, storeAll leftover graph.parameters values⟩
  else
    none

/-- Goes on after a call. -/
def resume (target : Slot) (caller : Activation) (value : Int32) : Activation :=
  caller.advance (Function.update caller.store target value)

/-- Makes one move.  A call of a graph starts it; any other call has to be external and is
answered. -/
def makeMove (active : Activation) (callers : List (Slot × Activation)) (trace : Trace) :
    Move → Machine
  | .go next => .running next callers trace
  | .fault => .faulted trace
  | .call target function values =>
    match world.graph? function with
    | some graph =>
      match start? graph values (world.leftover (.running active callers trace)) with
      | some started => .running started ((target, active) :: callers) trace
      | none => .stuck trace
    | none =>
      match externalName? function with
      | some name =>
        let answer := world.oracle trace name values
        .running (resume target active answer) callers (trace ++ [⟨name, values, answer⟩])
      | none => .stuck trace
  | .leave value =>
    match callers with
    | [] => .returned value trace
    | (target, caller) :: others =>
      let leftover := world.leftover (.running active callers trace) target
      .running (resume target caller (value.getD leftover)) others trace

/-- One step of a machine.  A machine that has ended stays as it is. -/
def step : Machine → Machine
  | .running active callers trace =>
    match active.move? with
    | none => .stuck trace
    | some move => world.makeMove active callers trace move
  | ended => ended

/-- The machine at the start of a function. -/
def start (graph : Graph) (values : List Int32) (leftover : Store) : Machine :=
  match start? graph values leftover with
  | some active => .running active [] []
  | none => .stuck []

/-- Whether a machine comes to a state after some steps. -/
def Reaches (machine target : Machine) : Prop :=
  ∃ count, world.step^[count] machine = target

end World

end SmallC.Execution
