import SmallC.Proofs.Emission.Call

/-!
# Parameters on the stack

A called function finds its stack parameters by their positions alone, and the number of arguments of
a call is not compared with the number of parameters.  Seen from the caller, the cell of a stack
parameter is the entry of the argument at the same position as long as there is such an argument.
The cells of other parameters are above the entries, where the frame of the caller begins.
-/

namespace SmallC.Assembly

open SmallC.Graph

/-! ## Places as the caller sees them -/

/-- The bytes of a cell, by their distances from the frame base. -/
def Cell.bytes (cell : Cell) : Set Int :=
  Set.Ico cell.offset (cell.offset + 4)

/-- How far the stack pointer is from the frame base at a call with a number of arguments. -/
def callDistance (caller : Graph) (count : Nat) : Int :=
  -(frameSize caller : Int) - stackBytes count

/-- The bytes of the arguments that a call pushes, by their distances from the frame base of the
caller: an entry of eight bytes for each. -/
def pushedBytes (caller : Graph) (count : Nat) : Set Int :=
  Set.Ico (callDistance caller count)
    (callDistance caller count + 8 * (count - Frame.registerParameters : Nat))

/-- A cell of a called function, from the frame base of the caller.  The return address and the saved
frame base are between the stack pointer at the call and the frame base of the called function. -/
@[simps]
def Cell.fromCaller (cell : Cell) (caller : Graph) (count : Nat) : Cell :=
  ⟨callDistance caller count - 16 + cell.offset⟩

section Places

variable {caller callee : Graph} {position count : Nat} {parameter slot : Slot}

theorem offset_fromCaller (laid : callee.LaidOut)
    (found : callee.parameters[position]? = some parameter)
    (onStack : Frame.registerParameters ≤ position) (caller : Graph) (count : Nat) :
    ((callee.cellAt parameter).fromCaller caller count).offset =
      callDistance caller count + 8 * (position - Frame.registerParameters : Nat) := by
  rw [Cell.fromCaller_offset, laid.offset_cellAt_parameter found onStack]
  omega

/-- The cell of a stack parameter is among the pushed arguments exactly when there is an argument for
it. -/
theorem bytes_subset_pushedBytes_iff (laid : callee.LaidOut)
    (found : callee.parameters[position]? = some parameter)
    (onStack : Frame.registerParameters ≤ position) :
    ((callee.cellAt parameter).fromCaller caller count).bytes ⊆ pushedBytes caller count ↔
      position < count := by
  rw [Cell.bytes, offset_fromCaller laid found onStack, pushedBytes, Set.Ico_subset_Ico_iff (by omega)]
  omega

/-- The pushed arguments are below all slots of the caller. -/
theorem disjoint_pushedBytes (laid : caller.LaidOut) (known : caller.HasSlot slot) (count : Nat) :
    Disjoint (pushedBytes caller count) (caller.cellAt slot).bytes := by
  have reserved := (laid.reserved_cellAt known).1
  have pushed_le := le_stackBytes count
  rw [pushedBytes, Cell.bytes, Set.Ico_disjoint_Ico, callDistance]
  omega

end Places

/-! ## Calls -/

section Calls

variable (hardware : Hardware) {graph : Graph}

theorem exists_pushed (graph : Graph) (slots : List Slot) (processor : Processor) :
    ∃ after, Instr.run hardware (pushCode graph slots) processor = .next after ∧
      after.frameBase = processor.frameBase ∧
      after.stackPointer = displaced processor.stackPointer (-(8 * slots.length : Int)) := by
  induction slots generalizing processor with
  | nil => exact ⟨processor, rfl, rfl, by simp⟩
  | cons first others ih =>
    let value := processor.cell (graph.cellAt first)
    let next := (processor.setHalf .rax value).pushed ((processor.setHalf .rax value).registers .rax)
    obtain ⟨after, run_eq, base_eq, stack_eq⟩ := ih next
    refine ⟨after, run_eq, base_eq, ?_⟩
    have next_stack : next.stackPointer = displaced processor.stackPointer (-8) := rfl
    rw [stack_eq, next_stack, displaced_displaced, List.length_cons]
    congr 1
    omega

/-- However many arguments are passed, the stack pointer is below them at the call. -/
theorem exists_passed (graph : Graph) (arguments : List Slot) (processor : Processor) :
    ∃ atCall, Instr.run hardware (passCode graph arguments) processor = .next atCall ∧
      atCall.frameBase = processor.frameBase ∧
      atCall.stackPointer = displaced processor.stackPointer (-(stackBytes arguments.length : Int)) := by
  let onStack := arguments.drop Frame.registerParameters
  obtain ⟨padded, padded_eq, -, padded_base, -, padded_stack⟩ :=
    exists_grown hardware (padding onStack.length) processor
  obtain ⟨pushed, pushed_eq, pushed_base, pushed_stack⟩ :=
    exists_pushed hardware graph onStack.reverse padded
  have distinct : Register.arguments.Nodup := by decide
  obtain ⟨loaded, loaded_eq, isAside, -⟩ := loaded_loadCode hardware distinct arguments pushed
  refine ⟨loaded.setHalf .rax 0, ?_, ?_, ?_⟩
  · rw [passCode, List.append_assoc, List.append_assoc, Instr.run_append padded_eq,
      Instr.run_append pushed_eq, Instr.run_append loaded_eq]
    rfl
  · exact isAside.base_eq.trans (pushed_base.trans padded_base)
  · show loaded.stackPointer = _
    rw [isAside.stack_eq, pushed_stack, padded_stack, displaced_displaced, List.length_reverse,
      List.length_drop, stackBytes]
    congr 1
    push_cast
    omega

/-- The code before a call, however many arguments there are. -/
theorem exists_atCall (laid : graph.LaidOut) {arguments : List Slot}
    (known : ∀ slot ∈ arguments, graph.HasSlot slot) {processor : Processor}
    (stack_eq : processor.stackPointer =
      displaced processor.frameBase (-(frameSize graph : Int))) :
    ∃ atCall, Instr.run hardware (passCode graph arguments) processor = .next atCall ∧
      atCall.stackPointer = displaced processor.frameBase (callDistance graph arguments.length) ∧
      (arguments.length ≤ 2 ^ 56 → AtCall graph arguments processor atCall) := by
  obtain ⟨atCall, run_eq, -, atCall_stack⟩ := exists_passed hardware graph arguments processor
  refine ⟨atCall, run_eq, ?_, fun few => ?_⟩
  · rw [atCall_stack, stack_eq, displaced_displaced, callDistance, sub_eq_add_neg]
  · obtain ⟨other, other_eq, passing⟩ := atCall_passCode hardware laid known few stack_eq
    rw [run_eq] at other_eq
    cases other_eq
    exact passing

end Calls

/-- What the stack parameter at a position of a called function is to the caller.  Places are compared
as integers; what is read and written is known as long as the arguments fit into the address space. -/
structure SeenFromCaller (caller callee : Graph) (arguments : List Slot) (processor entered : Processor)
    (position : Nat) (parameter : Slot) : Prop where
  offset_eq : (callee.cellAt parameter).offset = 16 + 8 * (position - Frame.registerParameters : Nat)
  address_eq : entered.address (callee.cellAt parameter) =
    processor.address ((callee.cellAt parameter).fromCaller caller arguments.length)
  inside_iff : ((callee.cellAt parameter).fromCaller caller arguments.length).bytes ⊆
    pushedBytes caller arguments.length ↔ position < arguments.length
  apart : position < arguments.length → ∀ slot, caller.HasSlot slot →
    Disjoint ((callee.cellAt parameter).fromCaller caller arguments.length).bytes
      (caller.cellAt slot).bytes
  /-- Reading the parameter reads the argument. -/
  reads : arguments.length ≤ 2 ^ 56 → ∀ argument, arguments[position]? = some argument →
    entered.cell (callee.cellAt parameter) = processor.cell (caller.cellAt argument)
  /-- Assigning the parameter leaves the slots of the caller. -/
  assigns : arguments.length ≤ 2 ^ 56 → position < arguments.length →
    ∀ (running : Processor) (value : BitVec 32) slot, running.frameBase = entered.frameBase →
      caller.HasSlot slot →
        (running.setCell (callee.cellAt parameter) value).memory.word
            (processor.address (caller.cellAt slot)) =
          running.memory.word (processor.address (caller.cellAt slot))

theorem seenFromCaller {caller callee : Graph} (laid : caller.LaidOut) (calleeLaid : callee.LaidOut)
    {arguments : List Slot} {returnAddress : BitVec 64} {processor atCall entered : Processor}
    (stack_eq : atCall.stackPointer =
      displaced processor.frameBase (callDistance caller arguments.length))
    (passing : arguments.length ≤ 2 ^ 56 → AtCall caller arguments processor atCall)
    (entering : Entered callee returnAddress atCall entered) {position : Nat} {parameter : Slot}
    (found : callee.parameters[position]? = some parameter)
    (onStack : Frame.registerParameters ≤ position) :
    SeenFromCaller caller callee arguments processor entered position parameter := by
  have base_eq : entered.frameBase =
      displaced processor.frameBase (callDistance caller arguments.length - 16) := by
    rw [entering.base_eq, stack_eq, displaced_displaced, sub_eq_add_neg]
  have inside_iff : ((callee.cellAt parameter).fromCaller caller arguments.length).bytes ⊆
      pushedBytes caller arguments.length ↔ position < arguments.length :=
    bytes_subset_pushedBytes_iff calleeLaid found onStack
  have address_eq (running : Processor) (same : running.frameBase = entered.frameBase) :
      running.address (callee.cellAt parameter) =
        processor.address ((callee.cellAt parameter).fromCaller caller arguments.length) := by
    rw [Processor.address, same, base_eq, displaced_displaced]
    rfl
  refine ⟨calleeLaid.offset_cellAt_parameter found onStack, address_eq entered rfl, inside_iff, ?_,
    ?_, ?_⟩
  · intro isPassed slot known
    exact (disjoint_pushedBytes laid known _).mono_left (inside_iff.mpr isPassed)
  · intro few argument argumentAt
    rw [entering.parameters position parameter found,
      (passing few).passed position argument argumentAt]
  · intro few isPassed running value slot same known
    have fits := laid.fits_cellAt known
    have reserved := (laid.reserved_cellAt known).1
    have size_lt := laid.frameSize_lt
    have bytes_ge := le_stackBytes arguments.length
    have bytes_le := stackBytes_le arguments.length
    have offset_eq := offset_fromCaller calleeLaid found onStack caller arguments.length
    have distance_eq : callDistance caller arguments.length =
        -(frameSize caller : Int) - stackBytes arguments.length := rfl
    refine Memory.word_congr fun index inside => ?_
    rw [Processor.setCell, address_eq running same, Processor.address, Processor.address,
      displaced_displaced]
    exact running.memory.setWord_of_outside _ _ (by omega) ⟨by omega, by omega⟩

/-- The cell of a stack parameter lies inside the arguments that are pushed for a call exactly when
the call has an argument at its position, and then it is apart from all slots of the caller. -/
theorem stack_parameters_within_arguments {text : List Char} {program : Program}
    {graphs : List Graph} (parsed : parseProgram text = .ok program)
    (lowered : program.lower = .ok graphs) {caller callee : Graph} (isCaller : caller ∈ graphs)
    (isCallee : callee ∈ graphs) {id : BlockId} {block : BasicBlock}
    (found : caller.blocks.get? id = some block) {target : Slot} {arguments : List Slot}
    (member : .call target callee.name arguments ∈ block.instructions) :
    ∃ pass take spills,
      emitInstruction caller (.call target callee.name arguments) =
          .ok (pass ++ .call callee.name :: take) ∧
        spillParameters callee Register.arguments callee.parameters = .ok spills ∧
        ∀ (hardware : Hardware) (processor : Processor),
          processor.stackPointer = displaced processor.frameBase (-(frameSize caller : Int)) →
          ∃ atCall, Instr.run hardware pass processor = .next atCall ∧
            atCall.stackPointer =
              displaced processor.frameBase (callDistance caller arguments.length) ∧
            (arguments.length ≤ 2 ^ 56 → AtCall caller arguments processor atCall) ∧
            ∀ returnAddress, ∃ entered,
              Instr.run hardware (prologue (frameSize callee) ++ spills)
                  (atCall.pushed returnAddress) = .next entered ∧
                ∀ (position : Nat) parameter, callee.parameters[position]? = some parameter →
                  Frame.registerParameters ≤ position →
                    SeenFromCaller caller callee arguments processor entered position
                      parameter := by
  obtain ⟨formed, laid⟩ := Lowered.kept ⟨text, program, graphs, parsed, lowered, isCaller⟩
  obtain ⟨calleeFormed, calleeLaid⟩ :=
    Lowered.kept ⟨text, program, graphs, parsed, lowered, isCallee⟩
  obtain ⟨-, known, call_eq⟩ := emitInstruction_call (formed.blocks_formed id block found) member
  refine ⟨_, _, _, call_eq, spillParameters_eq _ calleeFormed.parameters_known, ?_⟩
  intro hardware processor stack_eq
  obtain ⟨atCall, atCall_eq, atCall_stack, passing⟩ := exists_atCall hardware laid known stack_eq
  refine ⟨atCall, atCall_eq, atCall_stack, passing, fun returnAddress => ?_⟩
  obtain ⟨entered, entered_eq, entering⟩ :=
    entered_entryCode hardware calleeLaid calleeFormed.parameters_known returnAddress atCall
  exact ⟨entered, entered_eq, fun position parameter parameterAt onStack =>
    seenFromCaller laid calleeLaid atCall_stack passing entering parameterAt onStack⟩

/-- The last of eight arguments is read from its entry, and assigning it leaves the caller alone. -/
theorem stack_parameters_within_arguments_eight :
    ∃ (program : Program) (graphs : List Graph) (callee caller : Graph) (block : BasicBlock)
      (target : Slot) (arguments : List Slot) (pass take spills : List Instr),
      parseProgram eightText.toList = .ok program ∧ program.lower = .ok graphs ∧
        callee ∈ graphs ∧ caller ∈ graphs ∧
        caller.blocks.get? (TableKey.ofIndex 0) = some block ∧
        .call target callee.name arguments ∈ block.instructions ∧ arguments.length = 8 ∧
        emitInstruction caller (.call target callee.name arguments) =
          .ok (pass ++ .call callee.name :: take) ∧
        ∃ (hardware : Hardware) (processor atCall entered : Processor) (parameter : Slot),
          Instr.run hardware pass processor = .next atCall ∧
            Instr.run hardware (prologue (frameSize callee) ++ spills) (atCall.pushed 0) =
              .next entered ∧
            callee.parameters[7]? = some parameter ∧
            ((callee.cellAt parameter).fromCaller caller 8).bytes ⊆ pushedBytes caller 8 ∧
            ∀ slot, caller.HasSlot slot →
              Disjoint ((callee.cellAt parameter).fromCaller caller 8).bytes
                (caller.cellAt slot).bytes := by
  have evaluated : (parseProgram eightText.toList).toOption.any (fun program =>
      program.lower.toOption.any fun graphs =>
        graphs[0]?.any fun (callee : Graph) => callee.name == "f" && callee.parameters[7]?.any fun _ =>
          graphs[1]?.any fun (caller : Graph) =>
            (caller.blocks.get? (TableKey.ofIndex 0)).any fun block =>
            block.instructions.contains (.call (TableKey.ofIndex 0) "f"
              ((List.range' 1 8).map TableKey.ofIndex))) = true := by
    cbv
  obtain ⟨program, graphs, parsed, lowered, tested⟩ := exists_lowered_of_any evaluated
  simp only [Bool.and_eq_true, Option.any_eq_true, beq_iff_eq, List.contains_iff_mem] at tested
  obtain ⟨callee, calleeAt, name_eq, parameter, parameterAt, caller, callerAt, block, found, member⟩ :=
    tested
  have isCallee := List.mem_of_getElem? calleeAt
  have isCaller := List.mem_of_getElem? callerAt
  rw [← name_eq] at member
  obtain ⟨pass, take, spills, call_eq, -, places⟩ :=
    stack_parameters_within_arguments parsed lowered isCaller isCallee found member
  obtain ⟨atCall, atCall_eq, -, -, enters⟩ := places (fun _ processor => processor.flags)
    ⟨fun _ => 0, displaced 1024 (-(frameSize caller : Int)), 1024, ⟨false, false, false⟩,
      fun _ => 0⟩ rfl
  obtain ⟨entered, entered_eq, seen⟩ := enters 0
  have seenLast := seen 7 parameter parameterAt (by decide)
  have isPassed : 7 < ((List.range' 1 8).map (TableKey.ofIndex : Nat → Slot)).length := by decide
  exact ⟨program, graphs, callee, caller, block, _, _, pass, take, spills, parsed, lowered, isCallee,
    isCaller, found, member, rfl, call_eq, _, _, atCall, entered, parameter, atCall_eq, entered_eq,
    parameterAt, seenLast.inside_iff.mpr isPassed, seenLast.apart isPassed⟩

/-- The text of a program that calls a function of nine parameters without arguments. -/
def nineText : String :=
  "int g(int a,int b,int c,int d,int e,int f,int p,int q,int r)\x7br=9;return 0;\x7d" ++
    "int main()\x7bint a,b,c,d=1;g();return d;\x7d"

/-- A program that passes the checks, in which the last parameter of a function is the variable `d`
of its caller. -/
theorem missing_argument_is_variable_of_caller :
    ∃ (program : Program) (warnings : List Warning) (graphs : List Graph) (callee caller : Graph)
      (block : BasicBlock) (target parameter slot : Slot) (symbol : GraphSymbol)
      (pass take spills : List Instr),
      parseProgram nineText.toList = .ok program ∧ program.check = .ok warnings ∧
        program.lower = .ok graphs ∧ callee ∈ graphs ∧ caller ∈ graphs ∧
        caller.blocks.get? (TableKey.ofIndex 0) = some block ∧
        .call target callee.name [] ∈ block.instructions ∧
        callee.parameters[8]? = some parameter ∧ caller.symbols.get? slot = some symbol ∧
        symbol.name = "d" ∧
        ¬((callee.cellAt parameter).fromCaller caller 0).bytes ⊆ pushedBytes caller 0 ∧
        emitInstruction caller (.call target callee.name []) =
          .ok (pass ++ .call callee.name :: take) ∧
        spillParameters callee Register.arguments callee.parameters = .ok spills ∧
        ∀ (hardware : Hardware) (processor : Processor),
          processor.stackPointer = displaced processor.frameBase (-(frameSize caller : Int)) →
          ∃ atCall, Instr.run hardware pass processor = .next atCall ∧
            ∀ returnAddress, ∃ entered,
              Instr.run hardware (prologue (frameSize callee) ++ spills)
                  (atCall.pushed returnAddress) = .next entered ∧
                ∀ value, (entered.setCell (callee.cellAt parameter) value).memory.word
                  (processor.address (caller.cellAt slot)) = value := by
  have evaluated : (parseProgram nineText.toList).toOption.any (fun program =>
      program.check.toOption.any fun _ => program.lower.toOption.any fun graphs =>
        graphs[0]?.any fun (callee : Graph) => callee.name == "g" &&
          callee.parameters[8]?.any fun parameter =>
          (callee.cellAt parameter).offset == 32 && graphs[1]?.any fun (caller : Graph) =>
            frameSize caller == 32 &&
              (caller.symbols.get? (TableKey.ofIndex 3)).any (fun symbol =>
                symbol.name == "d" && symbol.frameOffset == -16) &&
              (caller.blocks.get? (TableKey.ofIndex 0)).any fun block =>
                block.instructions.contains (.call (TableKey.ofIndex 5) "g" [])) = true := by
    cbv
  obtain ⟨program, parsed, programTested⟩ := exists_ok_of_any evaluated
  obtain ⟨warnings, checked, isLowered⟩ := exists_ok_of_any programTested
  obtain ⟨graphs, lowered, tested⟩ := exists_ok_of_any isLowered
  simp only [Bool.and_eq_true, Option.any_eq_true, beq_iff_eq, List.contains_iff_mem] at tested
  obtain ⟨callee, calleeAt, name_eq, parameter, parameterAt, offset_eq, caller, callerAt,
    ⟨size_eq, symbol, symbolAt, variable_eq, variable_offset⟩, block, found, member⟩ := tested
  have isCallee := List.mem_of_getElem? calleeAt
  have isCaller := List.mem_of_getElem? callerAt
  obtain ⟨formed, laid⟩ := Lowered.kept ⟨_, program, graphs, parsed, lowered, isCaller⟩
  obtain ⟨calleeFormed, calleeLaid⟩ := Lowered.kept ⟨_, program, graphs, parsed, lowered, isCallee⟩
  rw [← name_eq] at member
  obtain ⟨-, known, call_eq⟩ := emitInstruction_call (formed.blocks_formed _ block found) member
  have outside : ¬((callee.cellAt parameter).fromCaller caller 0).bytes ⊆ pushedBytes caller 0 :=
    (bytes_subset_pushedBytes_iff calleeLaid parameterAt (by decide)).not.mpr (by omega)
  refine ⟨program, warnings, graphs, callee, caller, block, _, parameter, TableKey.ofIndex 3, symbol,
    _, _, _, parsed, checked, lowered, isCallee, isCaller, found, member, parameterAt, symbolAt,
    variable_eq, outside, call_eq, spillParameters_eq _ calleeFormed.parameters_known, ?_⟩
  intro hardware processor stack_eq
  obtain ⟨atCall, atCall_eq, atCall_stack, -⟩ := exists_atCall hardware laid known stack_eq
  refine ⟨atCall, atCall_eq, fun returnAddress => ?_⟩
  obtain ⟨entered, entered_eq, entering⟩ :=
    entered_entryCode hardware calleeLaid calleeFormed.parameters_known returnAddress atCall
  refine ⟨entered, entered_eq, fun value => ?_⟩
  have address_eq : entered.address (callee.cellAt parameter) =
      processor.address (caller.cellAt (TableKey.ofIndex 3)) := by
    simp only [Processor.address, entering.base_eq, atCall_stack, displaced_displaced, offset_eq,
      offset_cellAt symbolAt, variable_offset, callDistance, size_eq]
    rfl
  rw [Processor.setCell, address_eq]
  exact Memory.word_setWord _ _ _

end SmallC.Assembly
