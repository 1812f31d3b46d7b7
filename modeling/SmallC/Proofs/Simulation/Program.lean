import SmallC.Proofs.Simulation.Call

/-!
# Programs on the machine

The graphs of a program do what the program does.  A function and its graph return the same result
after the same calls, or both fault after the same calls, or both run forever and make the same calls
on the way.
-/

namespace SmallC

open Evaluation Execution Lowering

/-! ## Runs of machines -/

namespace Execution

variable {world : World} {machine : Machine}

/-- A machine that has ended stays as it is. -/
theorem World.step_of_not_running (ended : ¬machine.Running) : world.step machine = machine := by
  cases machine with
  | running active callers trace => exact absurd ⟨active, callers, trace, rfl⟩ ended
  | returned value trace | faulted trace | stuck trace => rfl

theorem World.iterate_of_not_running {count further : Nat}
    (ended : ¬(world.step^[count] machine).Running) (later : count ≤ further) :
    world.step^[further] machine = world.step^[count] machine := by
  obtain ⟨more, rfl⟩ := Nat.exists_eq_add_of_le later
  rw [Nat.add_comm, Function.iterate_add_apply]
  exact Function.iterate_fixed (step_of_not_running ended) more

/-- A machine ends in at most one way. -/
theorem World.iterate_unique {first second : Nat} (firstEnded : ¬(world.step^[first] machine).Running)
    (secondEnded : ¬(world.step^[second] machine).Running) :
    world.step^[first] machine = world.step^[second] machine := by
  rcases Nat.le_total first second with later | later
  · exact (iterate_of_not_running firstEnded later).symm
  · exact iterate_of_not_running secondEnded later

/-- Calls are only added to those so far. -/
theorem World.trace_prefix_makeMove (active : Activation) (callers : List (Slot × Activation))
    (trace : Trace) (move : Move) :
    trace <+: (world.makeMove active callers trace move).trace := by
  cases move with
  | go next | fault => exact List.prefix_rfl
  | call target function values =>
    simp only [World.makeMove]
    cases world.graph? function with
    | none =>
      cases externalName? function with
      | none => exact List.prefix_rfl
      | some name => exact List.prefix_append _ _
    | some graph =>
      dsimp only
      cases World.start? graph values (world.leftover (.running active callers trace)) with
      | none | some started => exact List.prefix_rfl
  | leave value =>
    cases callers with
    | nil | cons caller others => exact List.prefix_rfl

theorem World.trace_prefix_step (machine : Machine) :
    machine.trace <+: (world.step machine).trace := by
  cases machine with
  | running active callers trace =>
    simp only [World.step]
    cases active.move? with
    | none => exact List.prefix_rfl
    | some move => exact World.trace_prefix_makeMove active callers trace move
  | returned value trace | faulted trace | stuck trace => exact List.prefix_rfl

theorem World.trace_prefix_iterate {count further : Nat} (later : count ≤ further) :
    (world.step^[count] machine).trace <+: (world.step^[further] machine).trace := by
  induction later with
  | refl => exact List.prefix_rfl
  | step _ ih =>
    rw [Function.iterate_succ_apply']
    exact ih.trans (World.trace_prefix_step _)

end Execution

/-! ## Behaviours -/

/-- The calls of an evaluation that were answered from outside. -/
def Evaluation.traceOf : Except Halt (Option Int32 × Trace) → Trace
  | .ok result => result.2
  | .error halt => halt.trace

/-- A machine that shows the outcome of an evaluation. -/
def Shows (machine : Machine) : Except Halt (Option Int32 × Trace) → Prop
  | .ok (value, trace) => machine = .returned value trace
  | .error ⟨.fault, trace⟩ => machine = .faulted trace
  | .error ⟨.timeout, trace⟩ => ∃ active callers, machine = .running active callers trace
  | .error ⟨.indeterminate, _⟩ => False
  | .error ⟨.invalid, _⟩ => False

/-- A machine does the same as evaluations with more and more fuel.  Neither gets stuck. -/
structure SameBehaviour (world : World) (machine : Machine)
    (run : Nat → Except Halt (Option Int32 × Trace)) : Prop where
  returns : ∀ value trace,
    world.Reaches machine (.returned value trace) ↔ ∃ fuel, run fuel = .ok (value, trace)
  faults : ∀ trace,
    world.Reaches machine (.faulted trace) ↔ ∃ fuel, run fuel = .error ⟨.fault, trace⟩
  diverges : (∀ count, (world.step^[count] machine).Running) ↔
    ∀ fuel, ∃ trace, run fuel = .error ⟨.timeout, trace⟩
  safe : ∀ trace, ¬world.Reaches machine (.stuck trace)
  valid : ∀ fuel trace, run fuel ≠ .error ⟨.invalid, trace⟩
  /-- The machine makes all calls of the evaluations … -/
  calls : ∀ fuel, ∃ count, (world.step^[count] machine).trace = traceOf (run fuel)
  /-- … and no others. -/
  noOtherCalls : ∀ count, ∃ fuel, (world.step^[count] machine).trace <+: traceOf (run fuel)

section Shows

variable {machine : Machine} {outcome : Except Halt (Option Int32 × Trace)} {trace : Trace}

theorem Shows.trace_eq (shows : Shows machine outcome) : machine.trace = traceOf outcome := by
  match outcome with
  | .ok (value, trace) | .error ⟨.fault, trace⟩ => rw [shows]; rfl
  | .error ⟨.timeout, trace⟩ =>
    obtain ⟨active, callers, rfl⟩ := shows
    rfl

theorem shows_returned_iff {value : Option Int32} :
    Shows (.returned value trace) outcome ↔ outcome = .ok (value, trace) := by
  match outcome with
  | .ok (other, later) => simp [Shows, eq_comm]
  | .error ⟨.fault, _⟩ | .error ⟨.timeout, _⟩ | .error ⟨.indeterminate, _⟩
  | .error ⟨.invalid, _⟩ => simp [Shows]

theorem shows_faulted_iff : Shows (.faulted trace) outcome ↔ outcome = .error ⟨.fault, trace⟩ := by
  match outcome with
  | .ok _ => simp [Shows]
  | .error ⟨.fault, _⟩ => simp [Shows, eq_comm]
  | .error ⟨.timeout, _⟩ | .error ⟨.indeterminate, _⟩ | .error ⟨.invalid, _⟩ => simp [Shows]

theorem not_shows_stuck : ¬Shows (.stuck trace) outcome := by
  match outcome with
  | .ok _ | .error ⟨.fault, _⟩ | .error ⟨.timeout, _⟩ | .error ⟨.indeterminate, _⟩
  | .error ⟨.invalid, _⟩ => simp [Shows]

/-- A machine shows a timeout exactly as long as it runs. -/
theorem Shows.running_iff (shows : Shows machine outcome) :
    machine.Running ↔ ∃ trace, outcome = .error ⟨.timeout, trace⟩ := by
  match outcome with
  | .ok (value, trace) | .error ⟨.fault, trace⟩ =>
    rw [shows]
    simp [Machine.Running]
  | .error ⟨.timeout, trace⟩ =>
    obtain ⟨active, callers, rfl⟩ := shows
    simp [Machine.Running]

end Shows

variable {world : World} {machine : Machine}

/-- A machine that simulates an evaluation shows its outcome at some time, and at no early one where
the evaluation runs out of fuel. -/
theorem exists_shows {outcome : Except Halt (Option Int32 × Trace)} {limit : Nat}
    (simulates : world.Simulates limit machine outcome fun result after =>
      after = .returned result.1 result.2)
    (determinate : ∀ trace, outcome ≠ .error ⟨.indeterminate, trace⟩) :
    ∃ count, Shows (world.step^[count] machine) outcome ∧
      ((world.step^[count] machine).Running → limit ≤ count) := by
  match outcome with
  | .ok (value, trace) =>
    obtain ⟨count, returned⟩ := simulates
    exact ⟨count, returned, by simp [returned, Machine.Running]⟩
  | .error ⟨.fault, trace⟩ =>
    obtain ⟨count, faulted⟩ := simulates
    exact ⟨count, faulted, by simp [faulted, Machine.Running]⟩
  | .error ⟨.timeout, trace⟩ =>
    obtain ⟨count, enough, running⟩ := simulates
    exact ⟨count, running, fun _ => enough⟩
  | .error ⟨.indeterminate, trace⟩ => exact absurd rfl (determinate trace)

/-- A machine that simulates evaluations with more and more fuel does the same as they do. -/
theorem sameBehaviour_of_simulates {run : Nat → Except Halt (Option Int32 × Trace)}
    (simulates : ∀ fuel, world.Simulates fuel machine (run fuel) fun result after =>
      after = .returned result.1 result.2)
    (determinate : ∀ fuel trace, run fuel ≠ .error ⟨.indeterminate, trace⟩) :
    SameBehaviour world machine run := by
  have shown (fuel : Nat) := exists_shows (simulates fuel) (determinate fuel)
  -- With more fuel than a machine takes steps to end, the evaluation does not run out of it.
  have shownEnd (count : Nat) (ended : ¬(world.step^[count] machine).Running) :
      ∃ fuel, Shows (world.step^[count] machine) (run fuel) := by
    obtain ⟨further, shows, enough⟩ := shown (count + 1)
    by_cases running : (world.step^[further] machine).Running
    · have later : count ≤ further := Nat.le_of_succ_le (enough running)
      rw [World.iterate_of_not_running ended later] at running
      exact absurd running ended
    · exact ⟨count + 1, by rwa [World.iterate_unique ended running]⟩
  refine ⟨?returns, ?faults, ?diverges, ?safe, ?valid, ?calls, ?noOtherCalls⟩
  case returns =>
    intro value trace
    constructor
    · rintro ⟨count, returned⟩
      obtain ⟨fuel, shows⟩ := shownEnd count (by simp [returned, Machine.Running])
      rw [returned, shows_returned_iff] at shows
      exact ⟨fuel, shows⟩
    · rintro ⟨fuel, returned⟩
      obtain ⟨count, shows, -⟩ := shown fuel
      rw [returned] at shows
      exact ⟨count, shows⟩
  case faults =>
    intro trace
    constructor
    · rintro ⟨count, faulted⟩
      obtain ⟨fuel, shows⟩ := shownEnd count (by simp [faulted, Machine.Running])
      rw [faulted, shows_faulted_iff] at shows
      exact ⟨fuel, shows⟩
    · rintro ⟨fuel, faulted⟩
      obtain ⟨count, shows, -⟩ := shown fuel
      rw [faulted] at shows
      exact ⟨count, shows⟩
  case diverges =>
    constructor
    · intro running fuel
      obtain ⟨count, shows, -⟩ := shown fuel
      exact shows.running_iff.mp (running count)
    · intro timeout count
      obtain ⟨further, shows, enough⟩ := shown count
      have running := shows.running_iff.mpr (timeout count)
      by_contra ended
      rw [World.iterate_of_not_running ended (enough running)] at running
      exact ended running
  case safe =>
    rintro trace ⟨count, stuck⟩
    obtain ⟨fuel, shows⟩ := shownEnd count (by simp [stuck, Machine.Running])
    rw [stuck] at shows
    exact not_shows_stuck shows
  case valid =>
    intro fuel trace invalid
    obtain ⟨count, shows, -⟩ := shown fuel
    rw [invalid] at shows
    exact shows
  case calls =>
    intro fuel
    obtain ⟨count, shows, -⟩ := shown fuel
    exact ⟨count, shows.trace_eq⟩
  case noOtherCalls =>
    intro count
    obtain ⟨further, shows, enough⟩ := shown count
    refine ⟨count, ?_⟩
    rw [← shows.trace_eq]
    by_cases running : (world.step^[further] machine).Running
    · exact World.trace_prefix_iterate (enough running)
    · rcases Nat.le_total count further with later | earlier
      · exact World.trace_prefix_iterate later
      · exact World.iterate_of_not_running running earlier ▸ List.prefix_rfl

/-! ## Programs -/

variable {program : Program}

/-- In a program that passes the checks, every function is found under its name. -/
theorem Program.function?_of_mem {warnings : List Warning} (checked : program.check = .ok warnings)
    {function : FunctionDef} (member : function ∈ program.functions) :
    program.function? function.name.name = some function := by
  obtain ⟨nodup, -, -⟩ := Program.check_eq_ok_iff.mp checked
  obtain ⟨found, found_eq⟩ : ∃ found, program.function? function.name.name = some found := by
    rw [← Option.isSome_iff_exists, Program.function?, List.find?_isSome]
    exact ⟨function, member, beq_self_eq_true _⟩
  obtain ⟨foundMember, name_eq⟩ := Program.mem_of_function? found_eq
  rw [found_eq, List.inj_on_of_nodup_map nodup foundMember member name_eq]

/-- What a compilation is made of. -/
theorem lower_of_compile {source : Source} {compilation : Compilation}
    (parsed : parseProgram source.text = .ok program)
    (compiled : (compile source).outcome = .ok compilation) :
    (∃ warnings, program.check = .ok warnings) ∧ program.lower = .ok compilation.graphs := by
  cases checked : program.check with
  | error error =>
    simp only [compile, parsed, checked, bind, Logged.andThen, Logged.entry, Logged.quiet,
      Except.mapError] at compiled
    cases compiled
  | ok warnings =>
    rw [outcome_compile parsed checked] at compiled
    cases lowered : program.lower with
    | error fault =>
      rw [lowered] at compiled
      cases compiled
    | ok graphs =>
      rw [lowered] at compiled
      cases compiled
      exact ⟨⟨warnings, rfl⟩, rfl⟩

/-- The graphs of a compiled program do what the program does.  For every function of the program,
all values of its parameters and all answers to external calls, unless the evaluation uses a value
that does not exist, the graph of that name behaves as the function does: it returns the same result,
faults or runs forever, and makes the same external calls on the way.  Calls of the program's own
functions have to pass as many arguments as there are parameters, and operands and arguments have to
be independent of each other. -/
theorem compile_preserves_behaviour {source : Source} {compilation : Compilation}
    (parsed : parseProgram source.text = .ok program)
    (compiled : (compile source).outcome = .ok compilation)
    (arities : ∀ part ∈ program.parts, part.MatchesArity program)
    (independent : ∀ part ∈ program.parts, part.OrderFree) {function : FunctionDef}
    (member : function ∈ program.functions) {values : List Int32}
    (passed : function.parameters.length = values.length) (world : World)
    (runsGraphs : world.graphs = compilation.graphs)
    (determinate : ∀ fuel trace,
      program.run world.oracle function values fuel ≠ .error ⟨.indeterminate, trace⟩)
    (initial : Store) :
    ∃ graph, world.graph? function.name.name = some graph ∧
      SameBehaviour world (World.start graph values initial)
        (program.run world.oracle function values) := by
  obtain ⟨⟨warnings, checked⟩, lowered⟩ := lower_of_compile parsed compiled
  rw [← runsGraphs] at lowered
  have tree := Program.wellFormed_of_parse parsed
  have orderly : program.Orderly program.parts := fun part isPart =>
    ⟨independent part isPart, arities part isPart⟩
  have related := Program.rel_function?_graph? tree lowered function.name.name
  rw [Program.function?_of_mem checked member] at related
  cases graphFound : world.graph? function.name.name with
  | none =>
    rw [graphFound] at related
    cases related
  | some graph =>
    rw [graphFound] at related
    cases related with
    | some related =>
      refine ⟨graph, rfl, sameBehaviour_of_simulates (fun fuel => ?_) determinate⟩
      obtain ⟨started, started_eq, runs⟩ := simulates_runFunction
        (callsFollow tree lowered orderly fuel) (tree function member)
        (orderly.of_mem member) related.1 passed initial [] []
      rw [World.start, started_eq]
      exact runs

/-- The program `int main(int a){return a&&main(f(a));}`. -/
def askingProgram : Program where
  functions := [{
    span := ⟨0, 38⟩
    returnType := .int
    name := ⟨"main", ⟨4, 8⟩⟩
    parameters := [⟨⟨9, 14⟩, ⟨"a", ⟨13, 14⟩⟩⟩]
    body := ⟨⟨15, 38⟩, [.returnValue ⟨16, 37⟩ (some
      (.binary ⟨23, 36⟩ (.logical .and) ⟨24, 26⟩ (.identifier ⟨"a", ⟨23, 24⟩⟩)
        (.call ⟨26, 36⟩ ⟨"main", ⟨26, 30⟩⟩
          [.call ⟨31, 35⟩ ⟨"f", ⟨31, 32⟩⟩ [.identifier ⟨"a", ⟨33, 34⟩⟩]])))]⟩ }]
  endOffset := 38

/-- A function that calls itself with an answer from outside until the answer is zero. -/
theorem compile_preserves_behaviour_asking :
    ∃ compilation graph,
      (compile (Source.ofText "int main(int a)\x7breturn a&&main(f(a));\x7d")).outcome =
          .ok compilation ∧
        (World.mk compilation.graphs (fun _ _ _ => 0) fun _ _ => 0).graph? "main" = some graph ∧
          (World.mk compilation.graphs (fun _ _ _ => 0) fun _ _ => 0).Reaches
            (World.start graph [5] fun _ => 0) (.returned (some 0) [⟨"f", [5], 0⟩]) := by
  have passes : askingProgram.check.toOption.isSome = true := by cbv
  have lowers : askingProgram.lower.toOption.isSome = true := by cbv
  have parsed : parseProgram
      (Source.ofText "int main(int a)\x7breturn a&&main(f(a));\x7d").text =
        .ok askingProgram := by
    cbv
  obtain ⟨compilation, compiled⟩ : ∃ compilation,
      (compile (Source.ofText "int main(int a)\x7breturn a&&main(f(a));\x7d")).outcome =
        .ok compilation := by
    obtain ⟨warnings, checked⟩ := exists_ok_of_isSome passes
    obtain ⟨graphs, lowered⟩ := exists_ok_of_isSome lowers
    rw [outcome_compile parsed checked, lowered]
    exact ⟨_, rfl⟩
  obtain ⟨main, member, name_eq, passed, runsOut, returns⟩ : ∃ main ∈ askingProgram.functions,
      main.name.name = "main" ∧ main.parameters.length = [(5 : Int32)].length ∧
        askingProgram.run (fun _ _ _ => 0) main [5] 0 = .error ⟨.timeout, [⟨"f", [5], 0⟩]⟩ ∧
          ∀ fuel, askingProgram.run (fun _ _ _ => 0) main [5] (fuel + 1) =
            .ok (some 0, [⟨"f", [5], 0⟩]) :=
    ⟨_, List.mem_singleton.mpr rfl, rfl, rfl, rfl, fun _ => rfl⟩
  obtain ⟨graph, found, same⟩ := compile_preserves_behaviour parsed compiled (by decide) (by decide)
    member passed ⟨compilation.graphs, fun _ _ _ => 0, fun _ _ => 0⟩ rfl
    (fun fuel trace halted => by
      cases fuel with
      | zero => cases runsOut.symm.trans halted
      | succ fuel => cases (returns fuel).symm.trans halted) fun _ => 0
  exact ⟨compilation, graph, compiled, name_eq ▸ found, (same.returns _ _).mpr ⟨1, returns 0⟩⟩

end SmallC
