import SmallC.Proofs.Lowering.Complete
import SmallC.Proofs.Simulation.Statement

/-!
# Calls on the machine

The body of a graph executes the body of its function.  So the calls of a program are simulated: by
induction on the fuel, a call of one of its own functions runs the graph of that function, and any
other call is answered from outside.
-/

namespace SmallC

open Evaluation Execution Lowering SmallC.Graph

/-! ## Parameters -/

namespace Execution

variable {values : List Int32}

/-- A slot holds the value that was stored into it. -/
theorem storeAll_eq_of_getElem? (store : Store) {slots : List Slot} (distinct : slots.Nodup)
    {number : Nat} {slot : Slot} {value : Int32} (slotAt : slots[number]? = some slot)
    (valueAt : values[number]? = some value) :
    storeAll store slots values slot = value := by
  induction slots generalizing values number with
  | nil => cases slotAt
  | cons first others ih =>
    rw [List.nodup_cons] at distinct
    cases values with
    | nil => cases valueAt
    | cons head rest =>
      rw [storeAll]
      cases number with
      | zero =>
        cases slotAt
        cases valueAt
        exact Function.update_self ..
      | succ number =>
        have different : slot ≠ first := fun same =>
          distinct.1 (same ▸ List.mem_of_getElem? slotAt)
        rw [Function.update_of_ne different]
        exact ih distinct.2 slotAt valueAt

end Execution

variable {graph : Graph}

/-- The parameters of a graph are different slots. -/
theorem Graph.LaidOut.parameters_nodup (laid : graph.LaidOut) : graph.parameters.Nodup := by
  rw [laid.parameters_eq]
  refine List.Nodup.map_on ?_ List.nodup_range
  intro first firstMember second secondMember same
  have limit := laid.parameters_le
  have small := laid.size_lt
  rw [List.mem_range] at firstMember secondMember
  have indices := congrArg TableKey.index same
  rwa [TableKey.index_ofIndex_of_lt (by omega), TableKey.index_ofIndex_of_lt (by omega)] at indices

/-- The slot of the parameter at a position. -/
theorem Graph.LaidOut.parameters_getElem? (laid : graph.LaidOut) {number : Nat}
    (inRange : number < graph.parameters.length) :
    graph.parameters[number]? = some (TableKey.ofIndex number) := by
  rw [laid.parameters_eq]
  simp [inRange]

/-- At the start of a function its parameters have the values that were passed. -/
theorem agrees_initialState {name : String} {parameters : List Parameter} {taken : Graph}
    (took : TookParameters parameters (.new name) taken)
    (tree : ∀ parameter ∈ parameters, parameter.name.WellFormed)
    (passed : parameters.length = values.length) (leftover : Store) (trace : Trace) :
    Agrees (taken.inScopes taken.scopes.enter).scopes.named
      (initialState parameters values trace).scopes (storeAll leftover taken.parameters values) := by
  have laid := took.ready.kept.laid
  have count_eq : taken.parameters.length = values.length := by
    rw [took.ready.parameters_only, took.size_eq, ← passed]
    simp [Graph.new, Table.empty, Table.size]
  refine Agrees.enter (took.related_single tree ?_ ?_)
  · rw [List.forall₂_iff_get]
    simp [passed]
  · intro number entry found value isValue
    obtain ⟨_, _, -, passedHere, rfl⟩ := List.getElem?_zipWith_eq_some.mp found
    cases isValue
    have inRange : number < values.length := (List.getElem?_eq_some_iff.mp passedHere).1
    exact storeAll_eq_of_getElem? leftover laid.parameters_nodup
      (laid.parameters_getElem? (count_eq ▸ inRange)) passedHere

/-! ## Bodies of functions -/

variable {world : World} {program : Program} {oracle : Oracle} {name : String}
  {function : FunctionDef} {callers : List (Slot × Activation)}

/-- The expressions of a function are expressions of the program. -/
theorem Program.Orderly.of_mem (orderly : program.Orderly program.parts)
    (member : function ∈ program.functions) :
    program.Orderly (Stmt.partsOfAll function.body.statements) := fun part isPart =>
  orderly part (List.mem_flatMap.mpr ⟨function, member, isPart⟩)

/-- The end of the code of a function returns without a value. -/
theorem step_openEnded (world : World) {graph : Graph} (formed : graph.WellFormed) (ended : graph.OpenEnded)
    (store : Store) (callers : List (Slot × Activation)) (trace : Trace) :
    world.step (.running ⟨graph, graph.current, graph.position, store⟩ callers trace) =
      world.makeMove ⟨graph, graph.current, graph.position, store⟩ callers trace (.leave none) := by
  obtain ⟨block, found⟩ := exists_block formed.hasBlock_current
  obtain ⟨trueNone, falseNone⟩ := ended block found
  have exit : block.terminator = .ok .ret := by
    simp only [BasicBlock.terminator, trueNone, falseNone]
  refine step_of_terminator found ?_ exit
  simp [position, found]

/-- The graph of a function runs its body. -/
theorem simulates_runFunction {call : Caller} {fuel : Nat}
    (calls : CallsFollow world program call fuel) (tree : function.WellFormed)
    (orderly : program.Orderly (Stmt.partsOfAll function.body.statements))
    (lowered : lowerFunction program.defines function = .ok graph)
    (passed : function.parameters.length = values.length) (leftover : Store)
    (callers : List (Slot × Activation)) (trace : Trace) :
    ∃ started, World.start? graph values leftover = some started ∧
      world.Simulates fuel (.running started callers trace)
        (runFunction call fuel function values trace) fun result =>
          Site.Returns ⟨world, call, fuel, graph, callers⟩ result.1 result.2 := by
  obtain ⟨taken, inside, outer, declared, insideLowered, left, graph_eq⟩ :=
    lowerFunction_eq_ok_iff.mp lowered
  have functionLowered := functionLowered_of_parts tree declared insideLowered left
  rw [← graph_eq] at functionLowered
  have took := functionLowered.took
  have steps := functionLowered.steps
  have parameters_eq : graph.parameters = taken.parameters := steps.header_eq.2
  have position_eq : taken.position = 0 := by
    rw [position, took.blocks_eq, took.current_eq]
    rfl
  have entry : graph.firstBlock? = some taken.current := by
    refine Steps.firstBlock? steps ?_
    rw [Graph.firstBlock?, took.order_eq, took.current_eq]
    rfl
  refine ⟨⟨graph, taken.current, 0, storeAll leftover graph.parameters values⟩, ?_, ?_⟩
  · rw [World.start?, if_pos (functionLowered.parameters_length.trans passed), entry]
    rfl
  · have opened : Steps taken (taken.inScopes taken.scopes.enter) := .single .opened
    have closed : Steps inside graph := by
      rw [graph_eq]
      exact .single (.closed left)
    have executes : Site.ExecutesAll ⟨world, call, fuel, graph, callers⟩ none
        function.body.statements (taken.inScopes taken.scopes.enter) inside :=
      executes_lowerStmts function.body.statements calls (opened.invariant took.ready.kept)
        tree.body orderly (LoopTargets.known_none _) insideLowered closed
    have agrees := agrees_initialState took tree.parameters passed leftover trace
    have body := executes _ _ agrees
    rw [runFunction, if_pos passed, parameters_eq]
    have atStart : Site.atEnd ⟨world, call, fuel, graph, callers⟩
        (taken.inScopes taken.scopes.enter) (storeAll leftover taken.parameters values) trace =
        .running ⟨graph, taken.current, 0, storeAll leftover taken.parameters values⟩ callers
          trace := by
      rw [← position_eq]
      rfl
    rw [← atStart]
    refine body.bind ?_
    rintro ⟨signal, state⟩ machine ends
    cases signal with
    | normal =>
      obtain ⟨store, rfl, -⟩ := ends
      have ended := step_openEnded world functionLowered.kept.formed
        functionLowered.openEnded store callers state.trace
      have atEnd : Site.atEnd ⟨world, call, fuel, graph, callers⟩ inside store state.trace =
          .running ⟨graph, graph.current, graph.position, store⟩ callers state.trace := by
        rw [graph_eq]
        rfl
      rw [atEnd]
      exact .of_step ended (.ok (returns_leave _ _ _))
    | broke | continued =>
      obtain ⟨_, isLoop, -⟩ := ends
      cases isLoop
    | returned value => exact .ok ends

/-! ## Targets of calls -/

/-- The mark of external functions is not part of their names. -/
theorem externalName?_append (name : String) :
    externalName? (name ++ externalSuffix) = some name := by
  simp [externalName?]

/-- No function has a name with the mark of external functions. -/
theorem not_isWord_append (name : String) : isWord (name ++ externalSuffix) = false := by
  have mark : '@' ∈ externalSuffix.toList := by decide
  have member : '@' ∈ (name ++ externalSuffix).toList := by
    rw [String.toList_append]
    exact List.mem_append_right _ mark
  unfold isWord
  split
  · rfl
  · rename_i first others list_eq
    rw [list_eq, List.mem_cons] at member
    rcases member with rfl | member
    · rfl
    · have notAll : others.all Piece.isWordChar = false := by
        rw [List.all_eq_false]
        exact ⟨'@', member, by decide⟩
      rw [notAll, Bool.and_false]

/-- Related lists have related entries where they are searched in the same way. -/
theorem rel_find? {α β : Type} {R : α → β → Prop} {left : List α} {right : List β}
    (related : List.Forall₂ R left right) {first : α → Bool} {second : β → Bool}
    (same : ∀ value other, R value other → first value = second other) :
    Option.Rel R (left.find? first) (right.find? second) := by
  induction related with
  | nil => exact .none
  | @cons value other _ _ here _ ih =>
    rw [List.find?_cons, List.find?_cons, same value other here]
    cases second other with
    | true => exact .some here
    | false => exact ih

/-- A function and its graph have the same name, so they are found under it together. -/
theorem Program.rel_function?_graph? (tree : program.WellFormed)
    (lowered : program.lower = .ok world.graphs) (name : String) :
    Option.Rel (fun function graph => lowerFunction program.defines function = .ok graph ∧
      graph.name = function.name.name) (program.function? name) (world.graph? name) := by
  have named : List.Forall₂ (fun function graph =>
      lowerFunction program.defines function = .ok graph ∧ graph.name = function.name.name)
      program.functions world.graphs :=
    (functionLowered_of_lowerFunctions tree lowered).imp
      fun _ _ ⟨functionLowered, _, parts⟩ => ⟨functionLowered, parts.name_eq⟩
  exact rel_find? named fun function graph ⟨_, name_eq⟩ => by rw [name_eq]

theorem Program.function?_eq_none_iff :
    program.function? name = none ↔ program.defines name = false := by
  simp [Program.function?, Program.defines]

theorem Program.mem_of_function? (found : program.function? name = some function) :
    function ∈ program.functions ∧ function.name.name = name :=
  ⟨List.mem_of_find?_eq_some found, by simpa using List.find?_some found⟩

/-- No graph has the name of an external function. -/
theorem Program.graph?_append (tree : program.WellFormed)
    (lowered : program.lower = .ok world.graphs) (name : String) :
    world.graph? (name ++ externalSuffix) = none := by
  have found := Program.rel_function?_graph? tree lowered (name ++ externalSuffix)
  have undefined : program.function? (name ++ externalSuffix) = none := by
    rw [Option.eq_none_iff_forall_ne_some]
    intro function functionFound
    obtain ⟨member, name_eq⟩ := Program.mem_of_function? functionFound
    have word : isWord function.name.name = true := (tree function member).name
    rw [name_eq, not_isWord_append] at word
    cases word
  rw [undefined] at found
  generalize world.graph? (name ++ externalSuffix) = graph at found
  cases found
  rfl

/-! ## Calls -/

/-- One step on a call. -/
theorem step_call {active : Activation} {trace : Trace} {block : BasicBlock} {target : Slot}
    {function : String} {arguments : List Slot}
    (found : active.graph.blocks.get? active.block = some block)
    (fetched : block.instructions[active.index]? = some (.call target function arguments)) :
    world.step (.running active callers trace) =
      world.makeMove active callers trace (.call target function (arguments.map active.store)) :=
  step_of_perform found fetched (perform_call _ _ _ _)

/-- A call of a function that the program does not define is answered. -/
theorem Program.call_of_none (undefined : program.function? name = none) (fuel : Nat)
    (values : List Int32) (trace : Trace) :
    program.call oracle fuel name values trace =
      .ok (some (oracle trace name values),
        trace ++ [⟨name, values, oracle trace name values⟩]) := by
  cases fuel <;> simp only [Program.call, undefined]

section

variable (found : program.function? name = some function)
include found

/-- Calls of the program's own functions take fuel. -/
theorem Program.call_zero (values : List Int32) (trace : Trace) :
    program.call oracle 0 name values trace = .error ⟨.timeout, trace⟩ := by
  unfold Program.call
  simp only [found]

theorem Program.call_succ (fuel : Nat) (values : List Int32) (trace : Trace) :
    program.call oracle (fuel + 1) name values trace =
      runFunction (program.call oracle fuel) fuel function values trace := by
  unfold Program.call
  simp only [found]

theorem callTarget_of_function? : callTarget program.defines name = name := by
  have defined : program.defines name = true := by
    rw [← Bool.not_eq_false, ← Program.function?_eq_none_iff, found]
    exact Option.some_ne_none function
  rw [callTarget, if_pos defined]

end

/-- A call of a function that the program does not define takes one step. -/
theorem simulates_externalCall (tree : program.WellFormed)
    (lowered : program.lower = .ok world.graphs) {active : Activation} {trace : Trace}
    {block : BasicBlock} {target : Slot} {arguments : List Slot}
    (undefined : program.function? name = none)
    (found : active.graph.blocks.get? active.block = some block)
    (fetched : block.instructions[active.index]? =
      some (.call target (callTarget program.defines name) arguments)) (fuel limit : Nat) :
    world.Simulates limit (.running active callers trace)
      (program.call world.oracle fuel name (arguments.map active.store) trace)
      fun result machine => ∃ value, (∀ number ∈ result.1, value = number) ∧
        machine = .running (World.resume target active value) callers result.2 := by
  have target_eq : callTarget program.defines name = name ++ externalSuffix := by
    rw [callTarget, if_neg (Bool.not_eq_true _ ▸ Program.function?_eq_none_iff.mp undefined)]
  rw [target_eq] at fetched
  rw [Program.call_of_none undefined]
  refine .of_step (step_call found fetched)
    (.ok ⟨world.oracle trace name (arguments.map active.store), ?_, ?_⟩)
  · rintro number ⟨⟩
    rfl
  · simp only [World.makeMove, Program.graph?_append tree lowered, externalName?_append]

/-- All calls of a program are simulated. -/
theorem callsFollow (tree : program.WellFormed)
    (lowered : program.lower = .ok world.graphs) (orderly : program.Orderly program.parts)
    (fuel : Nat) : CallsFollow world program (program.call world.oracle fuel) fuel := by
  induction fuel with
  | zero =>
    intro active callers trace block target name arguments found fetched passed
    cases functionFound : program.function? name with
    | none => exact simulates_externalCall tree lowered functionFound found fetched _ _
    | some function =>
      rw [Program.call_zero functionFound]
      exact ⟨0, Nat.le_refl 0, active, callers, rfl⟩
  | succ fuel ih =>
    intro active callers trace block target name arguments found fetched passed
    cases functionFound : program.function? name with
    | none => exact simulates_externalCall tree lowered functionFound found fetched _ _
    | some function =>
      rw [Program.call_succ functionFound]
      have member := (Program.mem_of_function? functionFound).1
      have related := Program.rel_function?_graph? tree lowered name
      rw [functionFound] at related
      cases graphFound : world.graph? name with
      | none =>
        rw [graphFound] at related
        cases related
      | some graph =>
        rw [graphFound] at related
        cases related with
        | some related =>
          have matching : function.parameters.length =
              (arguments.map active.store).length := by
            rw [List.length_map, passed function functionFound]
          obtain ⟨started, started_eq, runs⟩ := simulates_runFunction ih
            (tree function member) (orderly.of_mem member) related.1 matching
            (world.leftover (.running active callers trace)) ((target, active) :: callers)
            trace
          rw [callTarget_of_function? functionFound] at fetched
          have stepped : world.step (.running active callers trace) =
              .running started ((target, active) :: callers) trace := by
            rw [step_call found fetched]
            simp only [World.makeMove, graphFound, started_eq]
          exact .step stepped runs

end SmallC
