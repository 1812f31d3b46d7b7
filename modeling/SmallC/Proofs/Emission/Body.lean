import SmallC.Proofs.Emission.Call
import SmallC.Proofs.Emission.Closed
import SmallC.Proofs.Emission.Instruction
import SmallC.Proofs.Semantics.Function

/-!
# Functions in assembly

The lines of a function do what its graph does.  Between two instructions of the graph the slots are
in their cells, and the lines that come next are those of the rest of the block.  Every step of the
graph takes the lines from one such place to another, or to the end of both runs.
-/

namespace SmallC.Assembly

open SmallC.Graph Execution Line

/-! ## Labels -/

/-- A label that is defined once is found where it is defined. -/
theorem Line.after?_of_nodup {before next : List Line} {label : String}
    (nodup : (labels (before ++ .label label :: next)).Nodup) :
    after? label (before ++ .label label :: next) = some next := by
  induction before with
  | nil => simp [after?]
  | cons first others ih =>
    rw [List.cons_append, after?, if_neg]
    · refine ih (nodup.sublist ?_)
      exact (List.sublist_cons_self _ _).filterMap _
    · rintro rfl
      simp [List.nodup_cons] at nodup

/-- A text that defines no label twice and has the lines of a graph in it. -/
structure Hosts (options : Options) (graph : Graph) (lines : List Line) : Prop where
  nodup : (labels lines).Nodup
  placed : ∃ before function after, emitFunction options graph = .ok function ∧
    lines = before ++ (function ++ after)

/-- The lines from an instruction of a block on. -/
structure Reads (options : Options) (graph : Graph) (block : BasicBlock) (index : Nat)
    (code : List Line) (exit : List Instr) : Prop where
  code_eq : emitInstructions options graph (block.instructions.drop index) = .ok code
  exit_eq : (block.terminator >>= emitTerminator graph) = .ok exit

section Hosts

variable {options : Options} {graph : Graph} {lines : List Line}

/-- The label of a function leads to its code before the first block, and on to that block. -/
theorem Hosts.exists_entry (hosts : Hosts options graph lines) (formed : graph.WellFormed)
    {entry : BlockId} (isFirst : graph.firstBlock? = some entry) :
    ∃ block code exit rest, after? graph.name lines =
        some ((entryCode graph).map .instr ++ .label block.label ::
          (code ++ (exit.map .instr ++ rest))) ∧
      graph.blocks.get? entry = some block ∧ Reads options graph block 0 code exit := by
  obtain ⟨before, function, after, emitted, rfl⟩ := hosts.placed
  obtain ⟨blocks, blocksEmitted, rfl⟩ := (emitFunction_eq_ok_iff formed).mp emitted
  obtain ⟨others, order_eq⟩ : ∃ others, graph.order = entry :: others :=
    List.head?_eq_some_iff.mp isFirst
  rw [order_eq] at blocksEmitted
  obtain ⟨block, code, exit, rest, found, blockLines, -, rfl⟩ :=
    emitBlocks_cons_eq_ok_iff.mp blocksEmitted
  refine ⟨block, code, exit, rest ++ after, ?_, found, ⟨blockLines.code_eq, blockLines.exit_eq⟩⟩
  have nodup := hosts.nodup
  have split : ∀ inner : List Line, before ++ (functionHeader graph.name ++
      (entryCode graph).map .instr ++ inner ++ after) =
        (before ++ [Line.verbatim (".globl " ++ graph.name),
          Line.verbatim (".type " ++ graph.name ++ ", @function")]) ++
            Line.label graph.name :: ((entryCode graph).map .instr ++ (inner ++ after)) := by
    intro inner
    simp [functionHeader]
  rw [split] at nodup ⊢
  rw [after?_of_nodup nodup]
  simp

/-- The label of a block leads to its instructions. -/
theorem Hosts.exists_block (hosts : Hosts options graph lines) (formed : graph.WellFormed)
    {id : BlockId} (emittedBlock : id ∈ graph.order) :
    ∃ block code exit rest,
      after? (graph.labelAt id) lines = some (code ++ (exit.map .instr ++ rest)) ∧
        graph.blocks.get? id = some block ∧ Reads options graph block 0 code exit := by
  obtain ⟨before, function, after, emitted, rfl⟩ := hosts.placed
  obtain ⟨blocks, blocksEmitted, rfl⟩ := (emitFunction_eq_ok_iff formed).mp emitted
  obtain ⟨inner, block, code, exit, rest, found, blockLines, rfl⟩ :=
    exists_blockLines blocksEmitted emittedBlock
  refine ⟨block, code, exit, rest ++ after, ?_, found, ⟨blockLines.code_eq, blockLines.exit_eq⟩⟩
  have nodup := hosts.nodup
  have split : before ++ (functionHeader graph.name ++ (entryCode graph).map .instr ++
      (inner ++ Line.label block.label :: (code ++ (exit.map .instr ++ rest))) ++ after) =
        (before ++ (functionHeader graph.name ++ (entryCode graph).map .instr ++ inner)) ++
          Line.label block.label :: (code ++ (exit.map .instr ++ (rest ++ after))) := by
    simp
  rw [split] at nodup ⊢
  rw [labelAt_of_get? found, after?_of_nodup nodup]

end Hosts

/-! ## Steps through code -/

namespace CodeRun

variable {surroundings : Surroundings} {processor : Processor}

variable {effect : Effect} {instruction : Instruction} {graphRun : GraphRun} {codeRun : CodeRun}

/-- Code without calls is run in as many steps as it takes. -/
theorem exists_iterate_code {code : List Instr}
    (ran : Instr.run surroundings.hardware code processor = effect)
    (noCall : ∀ function after, effect ≠ .call function after) (nonempty : code ≠ [])
    (next : List Line) (calls : List MadeCall) :
    ∃ count, (step surroundings)^[count + 1] (.running (code.map .instr ++ next) processor calls) =
      proceed surroundings next calls effect := by
  induction code generalizing processor with
  | nil => exact absurd rfl nonempty
  | cons first others ih =>
    cases done : first.effect surroundings.hardware processor with
    | next after =>
      rw [Instr.run_cons_of_next done] at ran
      have stepped : step surroundings
          (.running ((first :: others).map .instr ++ next) processor calls) =
            .running (others.map .instr ++ next) after calls := by
        rw [List.map_cons, List.cons_append, step, done]
        rfl
      by_cases last : others = []
      · subst last
        cases ran
        exact ⟨0, stepped⟩
      · obtain ⟨count, iterated⟩ := ih ran last
        refine ⟨count + 1, ?_⟩
        rw [Function.iterate_succ_apply, stepped, iterated]
    | _ =>
      rw [Instr.run, done] at ran
      subst ran
      refine ⟨0, ?_⟩
      rw [Function.iterate_one, List.map_cons, List.cons_append, step, done]
      first
        | rfl
        | exact absurd rfl (noCall _ _)

/-- A comment is passed over. -/
theorem exists_iterate_comment (options : Options) (text : String) (next : List Line)
    (processor : Processor) (calls : List MadeCall) :
    ∃ count, (step surroundings)^[count]
        (.running (commentLine options text ++ next) processor calls) =
      .running next processor calls := by
  unfold commentLine
  split
  · exact ⟨1, rfl⟩
  · exact ⟨0, rfl⟩

end CodeRun

/-! ## Calls as black boxes -/

/-- What a call does to the processor that makes it: the answer is in the result register, the
stack and the frame are where they were, and the frame of the caller is unharmed. -/
structure Answers (graph : Graph) (answer : Int32) (atCall returned : Processor) : Prop where
  result_eq : returned.half .rax = answer.toBitVec
  base_eq : returned.frameBase = atCall.frameBase
  stack_eq : returned.stackPointer = atCall.stackPointer
  kept : KeptBetween atCall.frameBase (-(frameSize graph : Int)) (2 ^ 61) atCall.memory
    returned.memory

/-- A call of the lines that passes what a call of the graph says. -/
structure Passes (event : Event) (call : MadeCall) : Prop where
  function_eq : call.function = event.function
  arguments_eq : ∀ (position : Nat) value, event.arguments[position]? = some value →
    call.processor.argument position = value.toBitVec

section Call

variable {graph : Graph} {start processor : Processor} {store : Store}

theorem Represents.of_kept {memory after : Memory}
    (represents : Represents graph start store memory) (laid : graph.LaidOut)
    (kept : KeptBetween start.frameBase (-(frameSize graph : Int)) (2 ^ 61) memory after) :
    Represents graph start store after where
  cells slot known :=
    (kept.cell_eq laid (Int.le_refl _) (by omega) known).trans (represents.cells slot known)
  kept distance above below outside :=
    (kept distance above below).trans (represents.kept distance above below outside)

/-- The code of a call passes the values of slots, and stores the answer into the target. -/
theorem exists_framed_call (hardware : Hardware) (laid : graph.LaidOut)
    (framed : Framed graph start store processor)
    (start_eq : start.stackPointer = displaced start.frameBase (-(frameSize graph : Int)))
    {target : Slot} {arguments : List Slot} (targetKnown : graph.HasSlot target)
    (known : ∀ slot ∈ arguments, graph.HasSlot slot) (few : arguments.length ≤ 2 ^ 56)
    (function : String) :
    ∃ atCall, Instr.run hardware (passCode graph arguments) processor = .next atCall ∧
      (∀ answer, Passes ⟨function, arguments.map store, answer⟩ ⟨function, atCall⟩) ∧
      ∀ answer returned, Answers graph answer atCall returned →
        ∃ after, Instr.run hardware (takeCode graph target arguments) returned = .next after ∧
          Framed graph start (Function.update store target answer) after := by
  have stack_eq : processor.stackPointer =
      displaced processor.frameBase (-(frameSize graph : Int)) := by
    rw [framed.stack_eq, start_eq, framed.base_eq]
  obtain ⟨atCall, atCall_eq, passing⟩ := atCall_passCode hardware laid known few stack_eq
  refine ⟨atCall, atCall_eq, fun answer => ⟨rfl, ?passed⟩, ?returns⟩
  case passed =>
    intro position value found
    rw [List.getElem?_map, Option.map_eq_some_iff] at found
    obtain ⟨slot, slotAt, rfl⟩ := found
    rw [passing.passed position slot slotAt]
    exact framed.cell_eq (known slot (List.mem_of_getElem? slotAt))
  case returns =>
    intro answer returned answers
    obtain ⟨after, after_eq, after_base, after_stack, after_memory⟩ :=
      exists_taken hardware graph target arguments returned
    have base_eq : returned.frameBase = start.frameBase :=
      answers.base_eq.trans (passing.base_eq.trans framed.base_eq)
    have kept : KeptBetween start.frameBase (-(frameSize graph : Int)) (2 ^ 61) processor.memory
        returned.memory := by
      have meanwhile := answers.kept
      rw [passing.base_eq] at meanwhile
      rw [← framed.base_eq]
      exact passing.kept.trans meanwhile
    refine ⟨after, after_eq, ?memory, after_base.trans base_eq, ?stack⟩
    case memory =>
      rw [after_memory, answers.result_eq, Processor.address, base_eq]
      exact (framed.memory.of_kept laid kept).setWord laid targetKnown answer
    case stack =>
      rw [after_stack, answers.stack_eq, passing.stack_eq, displaced_displaced, ← framed.stack_eq,
        stack_eq]
      congr 1
      omega

end Call

/-! ## Lines that follow a graph -/

/-- Where the lines of a function are when its graph is somewhere. -/
inductive Follows (options : Options) (graph : Graph) (start : Processor) :
    GraphRun → CodeRun → Prop
  | running {id : BlockId} {block : BasicBlock} {index : Nat} {store : Store} {events : Trace}
      {code rest : List Line} {exit : List Instr} {processor : Processor} {calls : List MadeCall}
      (found : graph.blocks.get? id = some block)
      (reads : Reads options graph block index code exit)
      (framed : Framed graph start store processor) (passed : List.Forall₂ Passes events calls) :
      Follows options graph start (.running ⟨graph, id, index, store⟩ events)
        (.running (code ++ (exit.map .instr ++ rest)) processor calls)
  | returned {store : Store} {value : Option Int32} {events : Trace} {processor : Processor}
      {calls : List MadeCall} (left : Left graph start store value processor)
      (passed : List.Forall₂ Passes events calls) :
      Follows options graph start (.returned value events)
        (.returned (start.memory.quad (displaced start.frameBase 8)) processor calls)
  | faulted {events : Trace} {calls : List MadeCall} (passed : List.Forall₂ Passes events calls) :
      Follows options graph start (.faulted events) (.faulted calls)

/-- A finished graph in a text, with calls that answer. -/
structure Setting (options : Options) (graph : Graph) (surroundings : Surroundings)
    (answers : Nat → Int32) : Prop where
  formed : graph.WellFormed
  complete : graph.Complete
  laid : graph.LaidOut
  hosts : Hosts options graph surroundings.lines
  /-- No call passes so many arguments that they do not fit below the frame. -/
  few : ∀ id block, graph.blocks.get? id = some block → ∀ target function arguments,
    .call target function arguments ∈ block.instructions → arguments.length ≤ 2 ^ 56
  answered : ∀ number function atCall,
    Answers graph (answers number) atCall (surroundings.call number function atCall)

section Follows

variable {options : Options} {graph : Graph} {surroundings : Surroundings}
  {answers : Nat → Int32} {start : Processor} {store : Store} {events : Trace}
  {calls : List MadeCall}

open CodeRun

/-- Effects that are known to be no calls. -/
theorem Performs.ne_call {action : Action} (performs : Performs graph start store effect action)
    (function : String) (after : Processor) : effect ≠ .call function after := by
  rintro rfl
  cases action with
  | proceed after => simp [Performs] at performs
  | fault => cases performs
  | call target function arguments => exact performs
  | leave value | jump target => simp [Performs] at performs

theorem moveOut_eq (active : Activation) (store : Store) (terminator : Terminator) :
    moveOut active (successor? store terminator) = (exitAction store terminator).move active := by
  unfold exitAction
  cases successor? store terminator <;> rfl

/-- Only an instruction with a label jumps. -/
theorem mem_operands_of_jump {target : BlockId}
    (jumps : perform store instruction = some (.jump target)) :
    .label target ∈ instruction.operands := by
  have noJump {slot : Slot} {result : Option Int32} : storing store slot result ≠ .jump target := by
    cases result <;> simp [storing]
  unfold perform at jumps
  split at jumps
  case h_10 label operands_eq =>
    cases jumps
    exact operands_eq ▸ List.mem_singleton_self _
  case h_7 =>
    rw [Option.map_eq_some_iff] at jumps
    obtain ⟨_, _, called⟩ := jumps
    cases called
  all_goals first
    | cases jumps
    | exact absurd (Option.some.inj jumps) noJump

theorem CodeOf.ne_nil {code : List Instr} (codeOf : CodeOf graph instruction code) : code ≠ [] := by
  cases codeOf with
  | arithmetic op => cases op <;> simp [arithmeticCode]
  | unary op => cases op <;> simp [unaryCode]
  | step op => cases op <;> simp [stepCode]
  | ret value => cases value <;> simp [epilogue]
  | _ => simp [compareCode]

section Setting

variable {id : BlockId} {block : BasicBlock} {index : Nat} {code : List Instr} {next : List Line}
  {processor : Processor} (setting : Setting options graph surroundings answers)

include setting

/-- What the lines do next follows what the graph does next, except at a call. -/
theorem Setting.follows_proceed {action : Action}
    (performs : Performs graph start store effect action)
    (goesOn : ∀ after processor, action = .proceed after → Framed graph start after processor →
      Follows options graph start (.running ⟨graph, id, index + 1, after⟩ events)
        (.running next processor calls))
    (stays : ∀ target, action = .jump target → target ∈ graph.order)
    (passed : List.Forall₂ Passes events calls) :
    Follows options graph start
      (GraphRun.makeMove answers ⟨graph, id, index, store⟩ events
        (action.move ⟨graph, id, index, store⟩))
      (proceed surroundings next calls effect) := by
  cases action with
  | proceed after =>
    obtain ⟨processor, rfl, framed⟩ := performs
    exact goesOn after processor rfl framed
  | fault =>
    cases performs
    exact .faulted passed
  | call target function arguments => exact performs.elim
  | leave value =>
    obtain ⟨processor, rfl, left⟩ := performs
    exact .returned left passed
  | jump target =>
    obtain ⟨processor, rfl, framed⟩ := performs
    obtain ⟨block, code, exit, rest, target_eq, found, reads⟩ :=
      setting.hosts.exists_block setting.formed (stays target rfl)
    rw [proceed, target_eq]
    exact .running found reads framed passed

/-- At the end of a block, the lines go where the graph goes. -/
theorem Setting.follows_exit (found : graph.blocks.get? id = some block) {exit : List Instr}
    (exit_eq : (block.terminator >>= emitTerminator graph) = .ok exit)
    (framed : Framed graph start store processor) (passed : List.Forall₂ Passes events calls)
    (atEnd : block.instructions[index]? = none) (rest : List Line) :
    ∃ count, Follows options graph start
      (GraphRun.step answers (.running ⟨graph, id, index, store⟩ events))
      ((step surroundings)^[count + 1] (.running (exit.map .instr ++ rest) processor calls)) := by
  obtain ⟨terminator, terminator_eq, leads⟩ := setting.complete.exits id block found
  have formed := leads.mono (fun _ known => known) setting.formed.order_known
  rw [terminator_eq, ok_bind, emitTerminator_eq formed] at exit_eq
  cases exit_eq
  have performs : Performs graph start store
      (Instr.run surroundings.hardware (exitCode graph terminator) processor)
      (exitAction store terminator) := performs_exitCode setting.laid formed framed
  have nonempty : exitCode graph terminator ≠ [] := by
    cases terminator <;> simp [exitCode, epilogue]
  obtain ⟨count, iterated⟩ := exists_iterate_code rfl performs.ne_call nonempty rest calls
  refine ⟨count, ?_⟩
  have move_eq : (⟨graph, id, index, store⟩ : Activation).move? =
      some ((exitAction store terminator).move ⟨graph, id, index, store⟩) := by
    rw [← moveOut_eq]
    simp only [Activation.move?, found, atEnd, terminator_eq]
  rw [iterated, GraphRun.step, move_eq]
  refine setting.follows_proceed performs ?_ ?_ passed
  · intro after _ proceeds
    cases terminator <;> cases proceeds
  · intro target jumps
    cases terminator with
    | ret => cases jumps
    | jump other =>
      cases jumps
      exact leads
    | branch test onTrue onFalse =>
      cases jumps
      by_cases zero : store test = 0
      · rw [if_pos zero]
        exact leads.2.2
      · rw [if_neg zero]
        exact leads.2.1

/-- At an instruction that is no call, the lines go where the graph goes. -/
theorem Setting.follows_instruction (found : graph.blocks.get? id = some block)
    (instructionAt : block.instructions[index]? = some instruction)
    (noCall : ∀ target function arguments, instruction ≠ .call target function arguments)
    (code_eq : emitInstruction graph instruction = .ok code)
    (goesOn : ∀ after processor, Framed graph start after processor →
      Follows options graph start (.running ⟨graph, id, index + 1, after⟩ events)
        (.running next processor calls)) (framed : Framed graph start store processor)
    (passed : List.Forall₂ Passes events calls) :
    ∃ count, Follows options graph start
      (GraphRun.step answers (.running ⟨graph, id, index, store⟩ events))
      ((step surroundings)^[count + 1] (.running (code.map .instr ++ next) processor calls)) := by
  have member := List.mem_of_getElem? instructionAt
  have formed := (setting.formed.blocks_formed id block found).instructions instruction member
  have codeOf := codeOf_of_emitInstruction formed code_eq
  obtain ⟨action, action_eq, performs⟩ : ∃ action, perform store instruction = some action ∧
      Performs graph start store (Instr.run surroundings.hardware code processor) action :=
    performs_of_codeOf setting.laid formed codeOf noCall framed
  obtain ⟨count, iterated⟩ := exists_iterate_code rfl performs.ne_call codeOf.ne_nil next calls
  have move_eq : (⟨graph, id, index, store⟩ : Activation).move? =
      some (action.move ⟨graph, id, index, store⟩) := by
    simp only [Activation.move?, found, instructionAt, action_eq, Option.map_some]
  refine ⟨count, ?_⟩
  rw [iterated, GraphRun.step, move_eq]
  refine setting.follows_proceed performs (fun after processor _ => goesOn after processor) ?_
    passed
  rintro target rfl
  exact setting.complete.operands id block found instruction member _
    (mem_operands_of_jump action_eq)

section

variable (start_eq : start.stackPointer = displaced start.frameBase (-(frameSize graph : Int)))
include start_eq

/-- A call passes its arguments, gets its answer and goes on. -/
theorem Setting.follows_call (found : graph.blocks.get? id = some block) {target : Slot}
    {function : String} {arguments : List Slot}
    (callAt : block.instructions[index]? = some (.call target function arguments))
    (code_eq : emitInstruction graph (.call target function arguments) = .ok code)
    (goesOn : ∀ after events processor calls, Framed graph start after processor →
      List.Forall₂ Passes events calls →
        Follows options graph start (.running ⟨graph, id, index + 1, after⟩ events)
          (.running next processor calls)) (framed : Framed graph start store processor)
    (passed : List.Forall₂ Passes events calls) :
    ∃ count, Follows options graph start
      (GraphRun.step answers (.running ⟨graph, id, index, store⟩ events))
      ((step surroundings)^[count + 1] (.running (code.map .instr ++ next) processor calls)) := by
  have member := List.mem_of_getElem? callAt
  obtain ⟨targetKnown, known, emitted⟩ :=
    emitInstruction_call (setting.formed.blocks_formed id block found) member
  rw [emitted, Except.ok.injEq] at code_eq
  subst code_eq
  obtain ⟨atCall, pass_eq, passes, takes⟩ := exists_framed_call surroundings.hardware setting.laid
    framed start_eq targetKnown known (setting.few id block found _ _ _ member) function
  obtain ⟨after, take_eq, afterFramed⟩ := takes (answers calls.length)
    (surroundings.call calls.length function atCall) (setting.answered calls.length function atCall)
  have move_eq : (⟨graph, id, index, store⟩ : Activation).move? =
      some (.call target function (arguments.map store)) := by
    simp only [Activation.move?, found, callAt, perform_call, Option.map_some]
    rfl
  -- The code is run in three parts: up to the call, the call, and what comes after it.
  obtain ⟨before, passed_eq⟩ := exists_iterate_code pass_eq (by simp) (by simp [passCode])
    ((.call function :: takeCode graph target arguments).map .instr ++ next) calls
  obtain ⟨later, taken_eq⟩ := exists_iterate_code take_eq (by simp) (by simp [takeCode]) next
    (calls ++ [⟨function, atCall⟩])
  refine ⟨later + 1 + 1 + before, ?_⟩
  simp only [GraphRun.step, move_eq, GraphRun.makeMove]
  rw [List.map_append, List.append_assoc, Nat.add_assoc, Function.iterate_add_apply, passed_eq,
    proceed, List.map_cons, List.cons_append, Function.iterate_succ_apply, step, Instr.effect,
    proceed, taken_eq, proceed, passed.length_eq]
  exact goesOn _ _ _ _ afterFramed (List.rel_append passed (.cons (passes _) .nil))

/-- Every step of a graph is followed by its lines. -/
theorem Setting.exists_follows_step (follows : Follows options graph start graphRun codeRun) :
    ∃ count, Follows options graph start (graphRun.step answers)
      ((step surroundings)^[count + 1] codeRun) := by
  cases follows with
  | returned left passed => exact ⟨0, .returned left passed⟩
  | faulted passed => exact ⟨0, .faulted passed⟩
  | @running id block index store events code rest exit processor calls found reads framed passed =>
    have code_eq := reads.code_eq
    cases remaining : block.instructions.drop index with
    | nil =>
      rw [remaining] at code_eq
      cases code_eq
      have atEnd : block.instructions[index]? = none :=
        List.getElem?_eq_none (List.drop_eq_nil_iff.mp remaining)
      exact setting.follows_exit found reads.exit_eq framed passed atEnd rest
    | cons instruction others =>
      rw [remaining] at code_eq
      obtain ⟨listing, instructionCode, otherCode, -, instruction_eq, others_eq, rfl⟩ :=
        emitInstructions_cons_eq_ok_iff.mp code_eq
      have instructionAt : block.instructions[index]? = some instruction := by
        rw [← List.head?_drop, remaining, List.head?_cons]
      have later_eq : block.instructions.drop (index + 1) = others := by
        rw [← List.tail_drop, remaining, List.tail_cons]
      have later : Reads options graph block (index + 1) otherCode exit :=
        ⟨later_eq ▸ others_eq, reads.exit_eq⟩
      let afterComment := CodeRun.running
        (instructionCode.map .instr ++ (otherCode ++ (exit.map .instr ++ rest))) processor calls
      suffices ∃ count, Follows options graph start
          (GraphRun.step answers (.running ⟨graph, id, index, store⟩ events))
          ((step surroundings)^[count + 1] afterComment) by
        obtain ⟨count, followed⟩ := this
        obtain ⟨skipped, skipped_eq⟩ := exists_iterate_comment options listing _ processor calls
        refine ⟨count + skipped, ?_⟩
        rwa [Nat.add_right_comm, Function.iterate_add_apply, List.append_assoc,
          List.append_assoc, skipped_eq]
      by_cases isCall : ∃ target function arguments, instruction = .call target function arguments
      · obtain ⟨target, function, arguments, rfl⟩ := isCall
        exact setting.follows_call start_eq found instructionAt instruction_eq
          (fun _ _ _ _ afterFramed allPassed => .running found later afterFramed allPassed)
          framed passed
      · exact setting.follows_instruction found instructionAt
          (fun target function arguments same => isCall ⟨target, function, arguments, same⟩)
          instruction_eq (fun _ _ afterFramed => .running found later afterFramed passed)
          framed passed

end

end Setting

/-- A run of a graph and a run of lines that go through the same: each state of the graph is
followed later by the lines, and when the lines end, so does the graph. -/
structure SameRun (options : Options) (graph : Graph) (surroundings : Surroundings)
    (answers : Nat → Int32) (start : Processor) (graphRun : GraphRun) (codeRun : CodeRun) :
    Prop where
  forth : ∀ count, ∃ further, count ≤ further ∧
    Follows options graph start ((GraphRun.step answers)^[count] graphRun)
      ((step surroundings)^[further] codeRun)
  back : ∀ further, ¬((step surroundings)^[further] codeRun).Running →
    ∃ count, ¬((GraphRun.step answers)^[count] graphRun).Running ∧
      Follows options graph start ((GraphRun.step answers)^[count] graphRun)
        ((step surroundings)^[further] codeRun)

theorem Follows.running_iff (follows : Follows options graph start graphRun codeRun) :
    graphRun.Running ↔ codeRun.Running := by
  cases follows <;> simp [GraphRun.Running, CodeRun.Running]

/-- Lines that get to where they follow a graph go through the same as it does. -/
theorem Setting.sameRun_of_follows (setting : Setting options graph surroundings answers)
    (start_eq : start.stackPointer = displaced start.frameBase (-(frameSize graph : Int)))
    (entering : Nat)
    (follows : Follows options graph start graphRun ((step surroundings)^[entering] codeRun)) :
    SameRun options graph surroundings answers start graphRun codeRun := by
  have forth : ∀ count, ∃ further, count ≤ further ∧
      Follows options graph start ((GraphRun.step answers)^[count] graphRun)
        ((step surroundings)^[further] codeRun) := by
    intro count
    induction count with
    | zero => exact ⟨entering, Nat.zero_le _, follows⟩
    | succ count ih =>
      obtain ⟨further, count_le, followed⟩ := ih
      obtain ⟨more, next⟩ := setting.exists_follows_step start_eq followed
      refine ⟨more + 1 + further, by omega, ?_⟩
      rwa [Function.iterate_succ_apply', Function.iterate_add_apply]
  refine ⟨forth, fun further ended => ?_⟩
  obtain ⟨later, further_le, followed⟩ := forth further
  rw [iterate_of_not_running ended further_le] at followed
  exact ⟨further, fun running => ended (followed.running_iff.mp running), followed⟩

theorem storeAll_eq_self {slots : List Slot} {values : List Int32}
    (stored : ∀ (position : Nat) slot value, slots[position]? = some slot →
      values[position]? = some value → store slot = value) :
    storeAll store slots values = store := by
  induction slots generalizing values with
  | nil => rfl
  | cons first others ih =>
    cases values with
    | nil => rfl
    | cons value values =>
      rw [storeAll, ih fun position => stored (position + 1), ← stored 0 first value rfl rfl,
        Function.update_eq_self]

/-- From its label on, a function does what its graph does with the values that are passed. -/
theorem Setting.exists_sameRun (setting : Setting options graph surroundings answers)
    (atCall : Processor) (returnAddress : BitVec 64) {values : List Int32}
    (count_eq : graph.parameters.length = values.length)
    (passed : ∀ (position : Nat) value, values[position]? = some value →
      atCall.argument position = value.toBitVec) :
    ∃ next entered active, after? graph.name surroundings.lines = some next ∧
      Entered graph returnAddress atCall entered ∧
      World.start? graph values (storeOf graph entered) = some active ∧
      SameRun options graph surroundings answers entered (.running active [])
        (.running next (atCall.pushed returnAddress) []) := by
  obtain ⟨block, code, exit, rest, next_eq, found, reads⟩ :=
    setting.hosts.exists_entry setting.formed setting.complete.starts
  obtain ⟨entered, entered_eq, entering⟩ := entered_entryCode surroundings.hardware setting.laid
    setting.formed.parameters_known returnAddress atCall
  have store_eq : storeAll (storeOf graph entered) graph.parameters values =
      storeOf graph entered := by
    refine storeAll_eq_self fun position slot value slotAt valueAt => ?_
    rw [storeOf, entering.parameters position slot slotAt, passed position value valueAt,
      Int32.ofBitVec_toBitVec]
  have start_eq : World.start? graph values (storeOf graph entered) =
      some ⟨graph, ⟨0⟩, 0, storeOf graph entered⟩ := by
    rw [World.start?, if_pos count_eq, store_eq]
    show graph.order.head?.map _ = _
    rw [setting.complete.starts, Option.map_some]
  refine ⟨_, entered, _, next_eq, entering, start_eq, ?_⟩
  obtain ⟨count, iterated⟩ := exists_iterate_code entered_eq (by simp)
    (by simp [entryCode, prologue]) (.label block.label :: (code ++ (exit.map .instr ++ rest))) []
  refine setting.sameRun_of_follows entering.stack_eq (1 + (count + 1)) ?_
  rw [Function.iterate_add_apply, iterated]
  exact .running found reads (framed_storeOf graph entered) .nil

end Follows

/-! ## Compiled functions -/

/-- The code of a block, apart from calls, does what the block says, whatever is in the slots. -/
structure FaithfulCode (graph : Graph) (block : BasicBlock) : Prop where
  instructions : ∀ instruction ∈ block.instructions, instruction.operation ≠ .call →
    ∃ code, emitInstruction graph instruction = .ok code ∧ ∀ hardware processor,
      ∃ action, perform (storeOf graph processor) instruction = some action ∧
        Performs graph processor (storeOf graph processor) (Instr.run hardware code processor)
          action
  exit : ∃ terminator code, block.terminator = .ok terminator ∧
    emitTerminator graph terminator = .ok code ∧ ∀ hardware processor,
      Performs graph processor (storeOf graph processor) (Instr.run hardware code processor)
        (exitAction (storeOf graph processor) terminator)

theorem faithfulCode_of_get? {graph : Graph} (formed : graph.WellFormed) (complete : graph.Complete)
    (laid : graph.LaidOut) {id : BlockId} {block : BasicBlock}
    (found : graph.blocks.get? id = some block) : FaithfulCode graph block := by
  constructor
  case instructions =>
    intro instruction member isNoCall
    have instructionFormed := (formed.blocks_formed id block found).instructions instruction member
    obtain ⟨code, code_eq, -⟩ := exists_codeOf instructionFormed
    refine ⟨code, code_eq, fun hardware processor => ?_⟩
    refine performs_of_codeOf laid instructionFormed
      (codeOf_of_emitInstruction instructionFormed code_eq) ?_ (framed_storeOf graph processor)
    rintro target function arguments rfl
    exact isNoCall rfl
  case exit =>
    obtain ⟨terminator, terminator_eq, leads⟩ := complete.exits id block found
    have terminatorFormed := leads.mono (fun _ known => known) formed.order_known
    exact ⟨terminator, _, terminator_eq, emitTerminator_eq terminatorFormed, fun _ processor =>
      performs_exitCode laid terminatorFormed (framed_storeOf graph processor)⟩

/-- The lines of a program have the lines of each of its graphs in them. -/
theorem hosts_programLines {options : Options} {defined : String → Bool} {graphs : List Graph}
    {functions : List (List Line)} (finished : ∀ graph ∈ graphs, graph.Finished defined)
    (names_nodup : (graphs.map (·.name)).Nodup)
    (emitted : List.Forall₂ (fun graph lines => emitFunction options graph = .ok lines)
      graphs functions) {graph : Graph} (member : graph ∈ graphs) :
    Hosts options graph (programLines functions) := by
  constructor
  case nodup =>
    rw [labels_programLines, List.flatMap_def, map_labels_of_emitted finished emitted,
      ← List.flatMap_def]
    exact nodup_flatMap_definedLabels finished names_nodup
  case placed =>
    obtain ⟨function, present, functionEmitted⟩ := exists_mem_of_forall₂ emitted.flip member
    obtain ⟨before, after, rfl⟩ := List.append_of_mem present
    exact ⟨fileHeader ++ before.flatMap (· ++ [Line.blank]), function,
      [Line.blank] ++ (after.flatMap (· ++ [Line.blank]) ++ fileFooter), functionEmitted,
      by simp [programLines]⟩

end SmallC.Assembly

namespace SmallC

open SmallC.Graph Assembly Execution

/-- The assembly of a function does what its graph does. -/
theorem emission_preserves_meaning {source : Source} {program : Program} {compilation : Compilation}
    (parsed : parseProgram source.text = .ok program)
    (compiled : (compile source).outcome = .ok compilation) {graph : Graph}
    (member : graph ∈ compilation.graphs) (target : Target) (options : Assembly.Options) :
    (∀ id block, graph.blocks.get? id = some block → FaithfulCode graph block) ∧
      ∃ functions,
        List.Forall₂ (fun graph lines => emitFunction options graph = .ok lines)
            compilation.graphs functions ∧
        (compilation.assembly target options).outcome = .ok (Line.render (programLines functions)) ∧
        ∀ (surroundings : Surroundings) (answers : Nat → Int32),
          surroundings.lines = programLines functions →
          (∀ number function atCall,
            Answers graph (answers number) atCall (surroundings.call number function atCall)) →
          (∀ id block, graph.blocks.get? id = some block → ∀ target function arguments,
            .call target function arguments ∈ block.instructions → arguments.length ≤ 2 ^ 56) →
          ∀ (atCall : Processor) (returnAddress : BitVec 64) (values : List Int32),
            graph.parameters.length = values.length →
            (∀ (position : Nat) value, values[position]? = some value →
              atCall.argument position = value.toBitVec) →
            ∃ next entered active, Line.after? graph.name surroundings.lines = some next ∧
              Entered graph returnAddress atCall entered ∧
              World.start? graph values (storeOf graph entered) = some active ∧
              SameRun options graph surroundings answers entered (.running active [])
                (.running next (atCall.pushed returnAddress) []) := by
  obtain ⟨⟨warnings, checked⟩, lowered⟩ := lower_of_compile parsed compiled
  obtain ⟨names_eq, finished⟩ := finished_of_lower (Program.wellFormed_of_parse parsed) lowered
  have names_nodup : (compilation.graphs.map (·.name)).Nodup :=
    names_eq ▸ (Program.nodup_of_check checked).1
  obtain ⟨formed, laid⟩ : graph.WellFormed ∧ graph.LaidOut :=
    Graph.Lowered.kept ⟨_, program, _, parsed, lowered, member⟩
  have complete := (finished graph member).complete
  obtain ⟨functions, emitted, outcome_eq⟩ := exists_lines_assembly target options
    (fun graph member => (finished graph member).formed) (List.ne_nil_of_mem member)
  refine ⟨fun id block => faithfulCode_of_get? formed complete laid, functions, emitted, outcome_eq,
    ?_⟩
  intro surroundings answers lines_eq answered few atCall returnAddress values
  have hosts : Hosts options graph surroundings.lines :=
    lines_eq ▸ hosts_programLines finished names_nodup emitted member
  exact Setting.exists_sameRun ⟨formed, complete, laid, hosts, few, answered⟩ atCall returnAddress

/-- The text of a program that divides the answer of an external function. -/
def dividingText : String :=
  "int main()\x7bint a=g(7,2);if(a/2)return a%3;return 1;\x7d"

/-- A processor whose memory and registers are all zero, with a stack at a given address. -/
def Assembly.Processor.zeroed (stackPointer : BitVec 64) : Processor :=
  ⟨fun _ => 0, stackPointer, 0, ⟨false, false, false⟩, fun _ => 0⟩

/-- A function whose calls answer five and change nothing but the result register. -/
theorem emission_preserves_meaning_dividing :
    ∃ program compilation graph functions,
      parseProgram (Source.ofText dividingText).text = .ok program ∧
        (compile (Source.ofText dividingText)).outcome = .ok compilation ∧
        graph ∈ compilation.graphs ∧ graph.name = "main" ∧
        (∀ id block, graph.blocks.get? id = some block → FaithfulCode graph block) ∧
        List.Forall₂ (fun graph lines => emitFunction ⟨true, .ansi⟩ graph = .ok lines)
          compilation.graphs functions ∧
        (compilation.assembly .x86LinuxGnu ⟨true, .ansi⟩).outcome =
          .ok (Line.render (programLines functions)) ∧
        ∃ next entered active, Line.after? "main" (programLines functions) = some next ∧
          Entered graph 64 (.zeroed 4096) entered ∧
          SameRun ⟨true, .ansi⟩ graph
            ⟨programLines functions, fun _ processor => processor.flags,
              fun _ _ atCall => atCall.setHalf .rax (5 : Int32).toBitVec⟩ (fun _ => 5) entered
            (.running active []) (.running next ((Processor.zeroed 4096).pushed 64) []) := by
  have evaluated : (parseProgram (Source.ofText dividingText).text).toOption.any (fun program =>
      program.check.toOption.isSome && program.lower.toOption.any fun graphs =>
        graphs.head?.any fun graph => graph.name == "main" && graph.parameters.isEmpty &&
          graph.blocks.entries.all fun block => block.instructions.all fun instruction =>
            instruction.operands.length ≤ 10) = true := by
    cbv
  obtain ⟨program, compilation, parsed, compiled, tested⟩ := exists_compiled_of_any evaluated
  simp only [Option.any_eq_true, Bool.and_eq_true, beq_iff_eq, List.isEmpty_iff, List.all_eq_true,
    decide_eq_true_eq] at tested
  obtain ⟨graph, isFirst, ⟨name_eq, noParameters⟩, short⟩ := tested
  have member : graph ∈ compilation.graphs := List.mem_of_mem_head? isFirst
  obtain ⟨faithful, functions, emitted, outcome_eq, runs⟩ :=
    emission_preserves_meaning parsed compiled member .x86LinuxGnu ⟨true, .ansi⟩
  have few : ∀ id block, graph.blocks.get? id = some block → ∀ target function arguments,
      .call target function arguments ∈ block.instructions → arguments.length ≤ 2 ^ 56 := by
    intro id block found target function arguments isCall
    have operands_le := short block (List.mem_of_getElem? found) _ isCall
    simp only [Instruction.call, List.length_cons, List.length_map] at operands_le
    omega
  have answered : ∀ (number : Nat) (function : String) (atCall : Processor),
      Answers graph 5 atCall (atCall.setHalf .rax (5 : Int32).toBitVec) := fun _ _ atCall =>
    ⟨Processor.half_setHalf _ _ _, rfl, rfl, fun _ _ _ => rfl⟩
  obtain ⟨next, entered, active, next_eq, entering, -, sameRun⟩ :=
    runs ⟨programLines functions, fun _ processor => processor.flags,
      fun _ _ atCall => atCall.setHalf .rax (5 : Int32).toBitVec⟩ (fun _ => 5) rfl answered few
      (.zeroed 4096) 64 [] (by simp [noParameters]) (fun _ _ absent => by cases absent)
  exact ⟨program, compilation, graph, functions, parsed, compiled, member, name_eq, faithful,
    emitted, outcome_eq, next, entered, active, name_eq ▸ next_eq, entering, sameRun⟩

end SmallC
