import SmallC.Proofs.Emission.Frame
import SmallC.Proofs.Emission.Lines
import SmallC.Proofs.Simulation.Call

/-!
# The calling convention

A call pads the stack, pushes the arguments that do not fit into registers and loads the others.
The called function saves the frame base right below the return address, so the pushed arguments are
where the layout of its frame has its stack parameters, and it stores the registers into the cells
of the other parameters.  When it comes back, the stack is as high as it was at the call.
-/

namespace SmallC.Assembly

open SmallC.Graph Execution

variable (hardware : Hardware) {graph : Graph}

/-! ## Passing arguments -/

/-- Where the argument at a position is at a call: in a register or on the stack. -/
def Processor.argument (processor : Processor) (position : Nat) : BitVec 32 :=
  match Register.arguments[position]? with
  | some register => processor.half register
  | none =>
    processor.memory.word (displaced processor.stackPointer
      (8 * (position - Frame.registerParameters : Nat)))

/-- The bytes of a number of arguments on the stack, with their padding. -/
def stackBytes (count : Nat) : Nat :=
  8 * (count - Frame.registerParameters) + padding (count - Frame.registerParameters)

theorem sixteen_dvd_stackBytes (count : Nat) : 16 ∣ stackBytes count := by
  unfold stackBytes padding
  split <;> omega

theorem le_stackBytes (count : Nat) : 8 * (count - Frame.registerParameters) ≤ stackBytes count :=
  Nat.le_add_right _ _

theorem stackBytes_le (count : Nat) : stackBytes count ≤ 8 * count + 8 := by
  unfold stackBytes padding
  split <;> omega

/-- Memories that agree on the bytes between two distances. -/
def KeptBetween (base : BitVec 64) (lowest highest : Int) (memory after : Memory) : Prop :=
  ∀ distance, lowest ≤ distance → distance < highest →
    after (displaced base distance) = memory (displaced base distance)

section KeptBetween

variable {base : BitVec 64} {lowest highest : Int} {memory middle after : Memory}

theorem KeptBetween.trans (kept : KeptBetween base lowest highest memory middle)
    (further : KeptBetween base lowest highest middle after) :
    KeptBetween base lowest highest memory after :=
  fun distance above below => (further distance above below).trans (kept distance above below)

section

variable (kept : KeptBetween base lowest highest memory after)
include kept

theorem KeptBetween.mono {low high : Int} (above : lowest ≤ low) (below : high ≤ highest) :
    KeptBetween base low high memory after :=
  fun distance fromLow toHigh => kept distance (by omega) (by omega)

theorem KeptBetween.word_eq {distance : Int} (above : lowest ≤ distance)
    (below : distance + 4 ≤ highest) :
    after.word (displaced base distance) = memory.word (displaced base distance) := by
  refine Memory.word_congr fun index inside => ?_
  rw [displaced_displaced]
  exact kept _ (by omega) (by omega)

theorem KeptBetween.quad_eq {distance : Int} (above : lowest ≤ distance)
    (below : distance + 8 ≤ highest) :
    after.quad (displaced base distance) = memory.quad (displaced base distance) := by
  refine Memory.quad_congr fun index inside => ?_
  rw [displaced_displaced]
  exact kept _ (by omega) (by omega)

end

/-- A number stored below a distance leaves everything from there on. -/
theorem keptBetween_setQuad (base : BitVec 64) (memory : Memory) (value : BitVec 64) {place : Int}
    (below : place + 8 ≤ lowest) (near : highest - place ≤ 2 ^ 62) :
    KeptBetween base lowest highest memory (memory.setQuad (displaced base place) value) := by
  intro distance fromLow toHigh
  exact memory.setQuad_of_outside base value (by omega) ⟨by omega, by omega⟩

/-- The cells of a frame are kept with the memory from the end of the frame on. -/
theorem KeptBetween.cell_eq (kept : KeptBetween base lowest highest memory after)
    (laid : graph.LaidOut) (fromFrame : lowest ≤ -(frameSize graph : Int))
    (high : 2 ^ 32 ≤ highest) {slot : Slot} (known : graph.HasSlot slot) :
    after.word (displaced base (graph.cellAt slot).offset) =
      memory.word (displaced base (graph.cellAt slot).offset) := by
  have fits := laid.fits_cellAt known
  have reserved := (laid.reserved_cellAt known).1
  exact kept.word_eq (by omega) (by omega)

end KeptBetween

/-- What pushing numbers from a distance downwards does. -/
structure Pushed (highest : Int) (values : List (BitVec 32)) (processor after : Processor) :
    Prop where
  base_eq : after.frameBase = processor.frameBase
  stack_eq : after.stackPointer = displaced processor.frameBase (highest - 8 * values.length)
  kept : KeptBetween processor.frameBase highest (2 ^ 61) processor.memory after.memory
  words : ∀ (index : Nat) value, values[index]? = some value →
    after.memory.word (displaced processor.frameBase (highest - 8 * (index + 1))) = value

/-- Slots are pushed in order. -/
theorem pushed_pushCode (laid : graph.LaidOut) {slots : List Slot}
    (known : ∀ slot ∈ slots, graph.HasSlot slot) {processor : Processor} {highest : Int}
    (below : highest ≤ -(frameSize graph : Int)) (room : -2 ^ 60 ≤ highest - 8 * slots.length)
    (stack_eq : processor.stackPointer = displaced processor.frameBase highest) :
    ∃ after, Instr.run hardware (pushCode graph slots) processor = .next after ∧
      Pushed highest (slots.map fun slot => processor.cell (graph.cellAt slot)) processor
        after := by
  induction slots generalizing processor highest with
  | nil =>
    refine ⟨processor, rfl, rfl, ?_, fun _ _ _ => rfl, fun _ _ found => ?_⟩
    · simpa using stack_eq
    · cases found
  | cons first others ih =>
    rw [List.forall_mem_cons] at known
    rw [List.length_cons] at room
    let value := processor.cell (graph.cellAt first)
    let next := (processor.setHalf .rax value).pushed (value.setWidth 64)
    have pushes : Instr.run hardware (pushCode graph (first :: others)) processor =
        Instr.run hardware (pushCode graph others) next := by
      rw [pushCode, List.flatMap_cons]
      refine Instr.run_append ?_ _
      simp [Instr.run, Instr.effect, Processor.setHalf, Processor.setRegister, next, value]
    have next_stack : next.stackPointer = displaced next.frameBase (highest - 8) := by
      show displaced processor.stackPointer (-8) = displaced processor.frameBase (highest - 8)
      rw [stack_eq, displaced_displaced, sub_eq_add_neg]
    have next_kept : KeptBetween processor.frameBase highest (2 ^ 61) processor.memory
        next.memory := by
      show KeptBetween _ _ _ _ (processor.memory.setQuad (displaced processor.stackPointer (-8)) _)
      rw [stack_eq, displaced_displaced]
      exact keptBetween_setQuad _ _ _ (by omega) (by omega)
    have cells_eq : ∀ slot ∈ others,
        next.cell (graph.cellAt slot) = processor.cell (graph.cellAt slot) :=
      fun slot member => next_kept.cell_eq laid below (by omega) (known.2 slot member)
    obtain ⟨after, run_eq, base_eq, after_stack, kept, words⟩ :=
      ih known.2 (by omega) (by omega) next_stack
    refine ⟨after, pushes.trans run_eq, base_eq, ?_, ?_, ?_⟩
    · rw [after_stack, List.length_map, List.length_map, List.length_cons]
      congr 1
      omega
    · exact next_kept.trans (kept.mono (by omega) (Int.le_refl _))
    · intro index found found_eq
      cases index with
      | zero =>
        cases found_eq
        have pushed_eq : next.memory.word (displaced processor.frameBase (highest - 8)) =
            value := by
          show (processor.memory.setQuad (displaced processor.stackPointer (-8)) _).word _ = _
          rw [stack_eq, displaced_displaced, ← sub_eq_add_neg, Memory.word_setQuad]
          simp
        exact (kept.word_eq (by omega) (by omega)).trans pushed_eq
      | succ index =>
        rw [List.map_cons, List.getElem?_cons_succ, ← List.map_congr_left cells_eq] at found_eq
        rw [← words index found found_eq]
        show after.memory.word _ = after.memory.word (displaced processor.frameBase _)
        congr 2
        push_cast
        omega

/-- Slots are loaded into registers, which does not change anything else. -/
theorem loaded_loadCode {registers : List Register} (distinct : registers.Nodup)
    (slots : List Slot) (processor : Processor) :
    ∃ after, Instr.run hardware (loadCode graph registers slots) processor = .next after ∧
      Aside processor after ∧
      (∀ (index : Nat) register slot, registers[index]? = some register →
        slots[index]? = some slot → after.half register = processor.cell (graph.cellAt slot)) ∧
      ∀ register ∉ registers, after.registers register = processor.registers register := by
  induction registers generalizing slots processor with
  | nil =>
    refine ⟨processor, rfl, ⟨rfl, rfl, rfl⟩, ?_, fun _ _ => rfl⟩
    intro index register slot registerAt
    cases registerAt
  | cons first others ih =>
    cases slots with
    | nil =>
      refine ⟨processor, rfl, ⟨rfl, rfl, rfl⟩, ?_, fun _ _ => rfl⟩
      intro index register slot _ slotAt
      cases slotAt
    | cons slot slots =>
      rw [List.nodup_cons] at distinct
      obtain ⟨after, run_eq, isAside, loads, others_eq⟩ :=
        ih distinct.2 slots (processor.setHalf first (processor.cell (graph.cellAt slot)))
      refine ⟨after, ?_, ⟨isAside.memory_eq, isAside.base_eq, isAside.stack_eq⟩, ?_, ?_⟩
      · exact (Instr.run_cons_of_next rfl _).trans run_eq
      · intro index register found registerAt slotAt
        cases index with
        | zero =>
          cases registerAt
          cases slotAt
          rw [Processor.half, others_eq first distinct.1]
          exact processor.half_setHalf first _
        | succ index => exact loads index register found registerAt slotAt
      · intro register absent
        rw [List.mem_cons, not_or] at absent
        rw [others_eq register absent.2]
        exact Function.update_of_ne absent.1 _ _

/-- A processor at the call of a function with the slots that are passed to it.  The memory of the
caller from the end of its frame on is as it was. -/
structure AtCall (graph : Graph) (arguments : List Slot) (processor atCall : Processor) :
    Prop where
  base_eq : atCall.frameBase = processor.frameBase
  stack_eq : atCall.stackPointer =
    displaced processor.frameBase (-(frameSize graph : Int) - stackBytes arguments.length)
  kept : KeptBetween processor.frameBase (-(frameSize graph : Int)) (2 ^ 61) processor.memory
    atCall.memory
  passed : ∀ (position : Nat) slot, arguments[position]? = some slot →
    atCall.argument position = processor.cell (graph.cellAt slot)

/-- Bytes are reserved on the stack, none included. -/
theorem exists_grown (bytes : Nat) (processor : Processor) :
    ∃ grown, Instr.run hardware (if 0 < bytes then [.growStack bytes] else []) processor =
        .next grown ∧
      grown.registers = processor.registers ∧ grown.frameBase = processor.frameBase ∧
        grown.memory = processor.memory ∧
        grown.stackPointer = displaced processor.stackPointer (-(bytes : Int)) := by
  split
  · exact ⟨_, rfl, rfl, rfl, rfl, rfl⟩
  · have noBytes : bytes = 0 := by omega
    exact ⟨processor, rfl, rfl, rfl, rfl, by simp [noBytes]⟩

theorem argument_of_register {processor : Processor} {position : Nat} {register : Register}
    (registerAt : Register.arguments[position]? = some register) :
    processor.argument position = processor.half register := by
  rw [Processor.argument, registerAt]

theorem argument_of_stack {processor : Processor} {position : Nat}
    (onStack : Frame.registerParameters ≤ position) :
    processor.argument position =
      processor.memory.word (displaced processor.stackPointer
        (8 * (position - Frame.registerParameters : Nat))) := by
  have noRegister : Register.arguments[position]? = none := List.getElem?_eq_none onStack
  rw [Processor.argument, noRegister]

/-- The code before a call passes the arguments. -/
theorem atCall_passCode (laid : graph.LaidOut) {arguments : List Slot}
    (known : ∀ slot ∈ arguments, graph.HasSlot slot) (few : arguments.length ≤ 2 ^ 56)
    {processor : Processor}
    (stack_eq : processor.stackPointer =
      displaced processor.frameBase (-(frameSize graph : Int))) :
    ∃ atCall, Instr.run hardware (passCode graph arguments) processor = .next atCall ∧
      AtCall graph arguments processor atCall := by
  have size_lt := laid.frameSize_lt
  let onStack := arguments.drop Frame.registerParameters
  have length_eq : onStack.length = arguments.length - Frame.registerParameters := List.length_drop
  have pad_le : padding onStack.length ≤ 8 := by
    unfold padding
    split <;> omega
  obtain ⟨padded, padded_eq, -, padded_base, padded_memory, padded_stack⟩ :=
    exists_grown hardware (padding onStack.length) processor
  rw [stack_eq, displaced_displaced, ← sub_eq_add_neg, ← padded_base] at padded_stack
  have padded_cell (slot : Slot) :
      padded.cell (graph.cellAt slot) = processor.cell (graph.cellAt slot) := by
    rw [Processor.cell, Processor.address, padded_base, padded_memory]
    rfl
  have onStackKnown : ∀ slot ∈ onStack.reverse, graph.HasSlot slot := fun slot member =>
    known slot (List.mem_of_mem_drop (List.mem_reverse.mp member))
  obtain ⟨pushed, pushed_eq, pushed_base, pushed_stack, pushed_kept, words⟩ :=
    pushed_pushCode hardware laid onStackKnown (by omega) (by rw [List.length_reverse]; omega)
      padded_stack
  rw [padded_base, padded_memory] at pushed_kept
  rw [padded_base] at pushed_base pushed_stack words
  have kept : KeptBetween processor.frameBase (-(frameSize graph : Int)) (2 ^ 61) processor.memory
      pushed.memory := pushed_kept.mono (by omega) (Int.le_refl _)
  have distinct : Register.arguments.Nodup := by decide
  obtain ⟨loaded, loaded_eq, isAside, loads, -⟩ :=
    loaded_loadCode hardware distinct arguments pushed
  refine ⟨loaded.setHalf .rax 0, ?_, ?_, ?_, ?_, ?_⟩
  · rw [passCode, List.append_assoc, List.append_assoc, Instr.run_append padded_eq,
      Instr.run_append pushed_eq, Instr.run_append loaded_eq]
    rfl
  · exact isAside.base_eq.trans pushed_base
  · show loaded.stackPointer = _
    rw [isAside.stack_eq, pushed_stack, List.length_map, List.length_reverse, stackBytes,
      ← length_eq]
    congr 1
    push_cast
    omega
  · show KeptBetween _ _ _ _ loaded.memory
    rw [isAside.memory_eq]
    exact kept
  · intro position slot slotAt
    by_cases inRegister : position < Frame.registerParameters
    · obtain ⟨register, registerAt⟩ : ∃ register, Register.arguments[position]? = some register :=
        ⟨_, List.getElem?_eq_getElem inRegister⟩
      have notResult : register ≠ .rax := by
        have passing : register ∈ Register.arguments := List.mem_of_getElem? registerAt
        rintro rfl
        revert passing
        decide
      rw [argument_of_register registerAt, Processor.half_setHalf_of_ne _ _ _ _ notResult,
        loads position register slot registerAt slotAt, Processor.cell, Processor.address,
        pushed_base]
      exact kept.cell_eq laid (Int.le_refl _) (by omega) (known slot (List.mem_of_getElem? slotAt))
    · have onStackAt : onStack[position - Frame.registerParameters]? = some slot := by
        rw [List.getElem?_drop, Nat.add_sub_cancel' (Nat.not_lt.mp inRegister), slotAt]
      have inside : position - Frame.registerParameters < onStack.length :=
        (List.getElem?_eq_some_iff.mp onStackAt).1
      have reversedAt : onStack.reverse[onStack.length - 1 -
          (position - Frame.registerParameters)]? = some slot := by
        rw [List.getElem?_reverse (by omega), ← onStackAt]
        congr 1
        omega
      have word_eq := words _ (padded.cell (graph.cellAt slot))
        (by rw [List.getElem?_map, reversedAt]; rfl)
      rw [argument_of_stack (Nat.not_lt.mp inRegister), ← padded_cell slot, ← word_eq]
      show loaded.memory.word (displaced loaded.stackPointer _) = _
      rw [isAside.memory_eq, isAside.stack_eq, pushed_stack, displaced_displaced, List.length_map,
        List.length_reverse]
      congr 2
      omega

/-! ## Entering a function -/

/-- What the slots hold by the memory of a processor. -/
def storeOf (graph : Graph) (processor : Processor) : Store := fun slot =>
  .ofBitVec (processor.cell (graph.cellAt slot))

theorem framed_storeOf (graph : Graph) (processor : Processor) :
    Framed graph processor (storeOf graph processor) processor :=
  ⟨⟨fun _ _ => (Int32.toBitVec_ofBitVec _).symm, fun _ _ _ _ => rfl⟩, rfl, rfl⟩

/-- Registers are stored into slots, and no others are changed. -/
theorem framed_spillCode (laid : graph.LaidOut) (registers : List Register) {start : Processor}
    {slots : List Slot} (distinct : slots.Nodup) (known : ∀ slot ∈ slots, graph.HasSlot slot)
    {store : Store} {processor : Processor} (framed : Framed graph start store processor) :
    ∃ after spilled, Instr.run hardware (spillCode graph registers slots) processor = .next after ∧
      Framed graph start spilled after ∧
      (∀ (index : Nat) register slot, registers[index]? = some register →
        slots[index]? = some slot → (spilled slot).toBitVec = processor.half register) ∧
      ∀ slot ∉ slots.take registers.length, spilled slot = store slot := by
  induction registers generalizing slots store processor with
  | nil =>
    refine ⟨processor, store, rfl, framed, ?_, fun _ _ => rfl⟩
    intro index register slot registerAt
    cases registerAt
  | cons first others ih =>
    cases slots with
    | nil =>
      refine ⟨processor, store, rfl, framed, ?_, fun _ _ => rfl⟩
      intro index register slot _ slotAt
      cases slotAt
    | cons slot slots =>
      rw [List.nodup_cons] at distinct
      rw [List.forall_mem_cons] at known
      have stored := framed.setCell laid known.1 (.ofBitVec (processor.half first))
      rw [Int32.toBitVec_ofBitVec] at stored
      obtain ⟨after, spilled, run_eq, afterFramed, spills, others_eq⟩ :=
        ih distinct.2 known.2 stored
      refine ⟨after, spilled, (Instr.run_cons_of_next rfl _).trans run_eq, afterFramed, ?_, ?_⟩
      · intro index register found registerAt slotAt
        cases index with
        | zero =>
          cases registerAt
          cases slotAt
          rw [others_eq slot fun taken => distinct.1 (List.mem_of_mem_take taken),
            Function.update_self, Int32.toBitVec_ofBitVec]
        | succ index => exact spills index register found registerAt slotAt
      · intro other absent
        rw [List.length_cons, List.take_succ_cons, List.mem_cons, not_or] at absent
        rw [others_eq other absent.2, Function.update_of_ne absent.1]

/-- A frame is set up below what is on the stack. -/
theorem exists_prologue (bytes : Nat) (processor : Processor) :
    ∃ started, Instr.run hardware (prologue bytes) processor = .next started ∧
      started.registers = processor.registers ∧
      started.frameBase = displaced processor.stackPointer (-8) ∧
      started.stackPointer = displaced started.frameBase (-(bytes : Int)) ∧
      started.memory =
        processor.memory.setQuad (displaced processor.stackPointer (-8)) processor.frameBase := by
  have saving : Instr.pushBase.effect hardware processor =
      .next (processor.pushed processor.frameBase) := rfl
  have setting : ∀ saved : Processor, Instr.setBase.effect hardware saved =
      .next { saved with frameBase := saved.stackPointer } := fun _ => rfl
  obtain ⟨started, run_eq, registers_eq, base_eq, memory_eq, stack_eq⟩ :=
    exists_grown hardware bytes { processor.pushed processor.frameBase with
      frameBase := (processor.pushed processor.frameBase).stackPointer }
  rw [Processor.pushed] at registers_eq base_eq stack_eq memory_eq
  refine ⟨started, ?_, registers_eq, base_eq, base_eq ▸ stack_eq, memory_eq⟩
  rw [prologue, List.cons_append, List.cons_append, List.nil_append,
    Instr.run_cons_of_next saving, Instr.run_cons_of_next (setting _), run_eq]

/-- A processor that has entered a function: its frame is below the call, the frame base of the
caller and the return address are saved, and its parameters hold what was passed.  Nothing above the
passed arguments is changed. -/
structure Entered (graph : Graph) (returnAddress : BitVec 64) (atCall entered : Processor) :
    Prop where
  base_eq : entered.frameBase = displaced atCall.stackPointer (-16)
  stack_eq : entered.stackPointer = displaced entered.frameBase (-(frameSize graph : Int))
  saved_eq : entered.memory.quad entered.frameBase = atCall.frameBase
  address_eq : entered.memory.quad (displaced entered.frameBase 8) = returnAddress
  parameters : ∀ (position : Nat) slot, graph.parameters[position]? = some slot →
    entered.cell (graph.cellAt slot) = atCall.argument position
  kept : KeptBetween atCall.stackPointer
    (8 * (graph.parameters.length - Frame.registerParameters : Nat)) (2 ^ 60) atCall.memory
    entered.memory

/-- The code at the start of a function takes over its arguments. -/
theorem entered_entryCode (laid : graph.LaidOut)
    (known : ∀ slot ∈ graph.parameters, graph.HasSlot slot) (returnAddress : BitVec 64)
    (atCall : Processor) :
    ∃ entered, Instr.run hardware (entryCode graph) (atCall.pushed returnAddress) = .next entered ∧
      Entered graph returnAddress atCall entered := by
  obtain ⟨started, started_eq, registers_eq, base_eq, stack_eq, memory_eq⟩ :=
    exists_prologue hardware (frameSize graph) (atCall.pushed returnAddress)
  obtain ⟨entered, spilled, entered_eq, framed, spills, others_eq⟩ :=
    framed_spillCode hardware laid Register.arguments laid.parameters_nodup known
      (framed_storeOf graph started)
  rw [Processor.pushed] at registers_eq base_eq memory_eq
  replace base_eq : started.frameBase = displaced atCall.stackPointer (-16) :=
    base_eq.trans (displaced_displaced _ _ _)
  rw [displaced_displaced] at memory_eq
  replace memory_eq : started.memory =
      (atCall.memory.setQuad (displaced atCall.stackPointer (-8)) returnAddress).setQuad
        (displaced atCall.stackPointer (-16)) atCall.frameBase := memory_eq
  have started_kept : KeptBetween atCall.stackPointer 0 (2 ^ 61) atCall.memory started.memory := by
    rw [memory_eq]
    exact (keptBetween_setQuad _ _ _ (by omega) (by omega)).trans
      (keptBetween_setQuad _ _ _ (by omega) (by omega))
  have entered_base : entered.frameBase = displaced atCall.stackPointer (-16) :=
    framed.base_eq.trans base_eq
  obtain ⟨saved_eq, address_eq⟩ := framed.memory.base_eq laid
  refine ⟨entered, ?_, entered_base, ?_, ?_, ?_, ?_, ?_⟩
  · rw [entryCode, Instr.run_append started_eq, entered_eq]
  · rw [framed.stack_eq, stack_eq, framed.base_eq]
  · rw [framed.base_eq, saved_eq, memory_eq, base_eq]
    exact Memory.quad_setQuad _ _ _
  · have above : KeptBetween atCall.stackPointer (-8) 0
        (atCall.memory.setQuad (displaced atCall.stackPointer (-8)) returnAddress)
        started.memory := by
      rw [memory_eq]
      exact keptBetween_setQuad _ _ _ (by omega) (by omega)
    rw [framed.base_eq, address_eq, base_eq, displaced_displaced]
    exact (above.quad_eq (by omega) (by omega)).trans (Memory.quad_setQuad _ _ _)
  · intro position slot found
    have slotKnown := known slot (List.mem_of_getElem? found)
    have position_lt := (laid.index_parameter found).1
    have fit := laid.parameters_fit
    unfold Frame.maxParameters at fit
    rw [framed.cell_eq slotKnown]
    by_cases onStack : Frame.registerParameters ≤ position
    · have absent : slot ∉ graph.parameters.take Register.arguments.length := by
        intro taken
        obtain ⟨index, slotAt⟩ := List.mem_iff_getElem?.mp taken
        rw [List.getElem?_take, Option.ite_none_right_eq_some] at slotAt
        have same := (laid.index_parameter slotAt.2).2.symm.trans (laid.index_parameter found).2
        exact Nat.not_lt.mpr onStack (same ▸ slotAt.1)
      rw [others_eq slot absent, storeOf, Int32.toBitVec_ofBitVec, Processor.cell,
        Processor.address, base_eq, laid.offset_cellAt_parameter found onStack, displaced_displaced,
        neg_add_cancel_left, started_kept.word_eq (by omega) (by omega), argument_of_stack onStack]
    · obtain ⟨register, registerAt⟩ : ∃ register, Register.arguments[position]? = some register :=
        ⟨_, List.getElem?_eq_getElem (Nat.not_le.mp onStack)⟩
      rw [spills position register slot registerAt found, argument_of_register registerAt,
        Processor.half, registers_eq, Processor.half]
  · intro distance above below
    have outside : ¬InCell graph (distance + 16) := by
      rintro ⟨slot, slotKnown, fromCell, inCell⟩
      have cell_le := laid.cellAt_le slotKnown
      omega
    have kept := framed.memory.kept (distance + 16) (by omega) (by omega) outside
    have place_eq : -16 + (distance + 16) = distance := by omega
    rw [base_eq, displaced_displaced, place_eq] at kept
    rw [kept, started_kept distance (by omega) (by omega)]

/-! ## Coming back -/

/-- The code after a call takes its result and drops the arguments. -/
theorem exists_taken (graph : Graph) (target : Slot) (arguments : List Slot)
    (returned : Processor) :
    ∃ after, Instr.run hardware (takeCode graph target arguments) returned = .next after ∧
      after.frameBase = returned.frameBase ∧
      after.stackPointer = displaced returned.stackPointer (stackBytes arguments.length) ∧
      after.memory =
        returned.memory.setWord (returned.address (graph.cellAt target)) (returned.half .rax) := by
  have shrinking : ∃ shrunk,
      Instr.run hardware (if 0 < stackBytes arguments.length
        then [.shrinkStack (stackBytes arguments.length)] else []) returned = .next shrunk ∧
        shrunk.registers = returned.registers ∧ shrunk.frameBase = returned.frameBase ∧
        shrunk.memory = returned.memory ∧
        shrunk.stackPointer = displaced returned.stackPointer (stackBytes arguments.length) := by
    split
    · exact ⟨_, rfl, rfl, rfl, rfl, rfl⟩
    · have noBytes : stackBytes arguments.length = 0 := by omega
      exact ⟨returned, rfl, rfl, rfl, rfl, by simp [noBytes]⟩
  obtain ⟨shrunk, shrunk_eq, registers_eq, base_eq, memory_eq, stack_eq⟩ := shrinking
  refine ⟨shrunk.setCell (graph.cellAt target) (shrunk.half .rax), ?_, base_eq, stack_eq, ?_⟩
  · rw [takeCode, List.length_drop]
    rw [stackBytes] at shrunk_eq
    rw [Instr.run_append shrunk_eq]
    rfl
  · rw [Processor.setCell, Processor.half, Processor.address, registers_eq, base_eq, memory_eq]
    rfl

/-- What a called function leaves alone: what it saved, where it goes back to, and the slots of its
caller. -/
structure Unharmed (caller : Graph) (processor entered leaving : Processor) : Prop where
  base_eq : leaving.frameBase = entered.frameBase
  saved_eq : leaving.memory.quad entered.frameBase = entered.memory.quad entered.frameBase
  address_eq : leaving.memory.quad (displaced entered.frameBase 8) =
    entered.memory.quad (displaced entered.frameBase 8)
  slots_eq : ∀ slot, caller.HasSlot slot →
    leaving.memory.word (processor.address (caller.cellAt slot)) =
      entered.memory.word (processor.address (caller.cellAt slot))

section Convention

variable {caller callee : Graph} {arguments : List Slot} {returnAddress : BitVec 64}
  {processor atCall entered leaving : Processor}

/-- The slots of a caller are as they were when the called function has been entered. -/
theorem Entered.slot_eq (entering : Entered callee returnAddress atCall entered)
    (passing : AtCall caller arguments processor atCall) (laid : caller.LaidOut)
    (calleeLaid : callee.LaidOut) (count_eq : arguments.length = callee.parameters.length)
    {slot : Slot} (known : caller.HasSlot slot) :
    entered.memory.word (processor.address (caller.cellAt slot)) =
      processor.cell (caller.cellAt slot) := by
  have fits := laid.fits_cellAt known
  have reserved := (laid.reserved_cellAt known).1
  have size_lt := laid.frameSize_lt
  have passed_eq := passing.kept.cell_eq laid (Int.le_refl _) (by omega) known
  have fit := calleeLaid.parameters_fit
  have bytes_ge := le_stackBytes arguments.length
  have bytes_le := stackBytes_le arguments.length
  have address_eq : processor.address (caller.cellAt slot) =
      displaced atCall.stackPointer
        ((caller.cellAt slot).offset + frameSize caller + stackBytes arguments.length) := by
    rw [passing.stack_eq, displaced_displaced, Processor.address]
    congr 1
    omega
  unfold Frame.maxParameters at fit
  rw [address_eq, entering.kept.word_eq (by omega) (by omega), ← address_eq]
  exact passed_eq

/-- When the called function takes down its frame, the caller goes on as the call says. -/
theorem exists_returned (laid : caller.LaidOut) (calleeLaid : callee.LaidOut)
    (passing : AtCall caller arguments processor atCall)
    (entering : Entered callee returnAddress atCall entered)
    (count_eq : arguments.length = callee.parameters.length)
    (stack_eq : processor.stackPointer = displaced processor.frameBase (-(frameSize caller : Int)))
    {target : Slot} (known : caller.HasSlot target)
    (unharmed : Unharmed caller processor entered leaving) :
    ∃ returned after, Instr.run hardware epilogue leaving = .ret returnAddress returned ∧
      Instr.run hardware (takeCode caller target arguments) returned = .next after ∧
      after.stackPointer = processor.stackPointer ∧ after.frameBase = processor.frameBase ∧
      after.cell (caller.cellAt target) = leaving.half .rax ∧
      ∀ slot, caller.HasSlot slot → slot ≠ target →
        after.cell (caller.cellAt slot) = processor.cell (caller.cellAt slot) := by
  have saved_eq := unharmed.saved_eq.trans (entering.saved_eq.trans passing.base_eq)
  have address_eq := unharmed.address_eq.trans entering.address_eq
  have returning := run_epilogue hardware leaving
  rw [unharmed.base_eq, saved_eq, address_eq] at returning
  obtain ⟨after, after_eq, after_base, after_stack, after_memory⟩ :=
    exists_taken hardware caller target arguments { leaving with
      stackPointer := displaced entered.frameBase 16
      frameBase := processor.frameBase }
  refine ⟨_, after, returning, after_eq, ?_, after_base, ?_, ?_⟩
  · rw [after_stack, entering.base_eq, passing.stack_eq, stack_eq]
    simp only [displaced_displaced]
    congr 1
    omega
  · rw [Processor.cell, Processor.address, after_base, after_memory]
    exact Memory.word_setWord _ _ _
  · intro slot slotKnown different
    rw [Processor.cell, Processor.address, after_base, after_memory]
    exact (word_setWord_cellAt laid known slotKnown different _ _ _).trans
      ((unharmed.slots_eq slot slotKnown).trans
        (entering.slot_eq passing laid calleeLaid count_eq slotKnown))

end Convention

theorem emitInstruction_call {block : BasicBlock} {target : Slot} {function : String}
    {arguments : List Slot} (formed : block.WellFormed graph.HasSlot graph.HasBlock)
    (member : .call target function arguments ∈ block.instructions) :
    graph.HasSlot target ∧ (∀ slot ∈ arguments, graph.HasSlot slot) ∧
      emitInstruction graph (.call target function arguments) =
        .ok (passCode graph arguments ++ .call function :: takeCode graph target arguments) := by
  have known : graph.HasSlot target ∧ ∀ slot ∈ arguments, graph.HasSlot slot := by
    simpa [Instruction.call, KnowsOperand] using
      knowsOperand_of_wellFormed (formed.instructions _ member)
  exact ⟨known.1, known.2, emitCall_eq function known.1 known.2⟩

/-- An address at a multiple of sixteen from another one is as aligned. -/
theorem sixteen_dvd_displaced {base : BitVec 64} {offset : Int} (aligned : 16 ∣ base.toNat)
    (isMultiple : 16 ∣ offset) : 16 ∣ (displaced base offset).toNat := by
  rw [displaced, BitVec.toNat_add, BitVec.toNat_ofInt]
  omega

/-- Caller and called function agree on where arguments, result and frames are. -/
theorem call_keeps_convention {caller callee : Graph} (callerLowered : caller.Lowered)
    (calleeLowered : callee.Lowered) {id : BlockId} {block : BasicBlock}
    (found : caller.blocks.get? id = some block) {target : Slot} {function : String}
    {arguments : List Slot} (member : .call target function arguments ∈ block.instructions)
    (count_eq : arguments.length = callee.parameters.length) :
    ∃ pass take spills,
      emitInstruction caller (.call target function arguments) =
          .ok (pass ++ .call function :: take) ∧
        spillParameters callee Register.arguments callee.parameters = .ok spills ∧
        ∀ (hardware : Hardware) (processor : Processor),
          processor.stackPointer = displaced processor.frameBase (-(frameSize caller : Int)) →
          16 ∣ processor.frameBase.toNat →
          ∃ atCall, Instr.run hardware pass processor = .next atCall ∧
            16 ∣ atCall.stackPointer.toNat ∧
            ∀ returnAddress, ∃ entered,
              Instr.run hardware (prologue (frameSize callee) ++ spills)
                  (atCall.pushed returnAddress) = .next entered ∧
                entered.stackPointer = displaced entered.frameBase (-(frameSize callee : Int)) ∧
                16 ∣ entered.frameBase.toNat ∧
                (∀ (position : Nat) parameter argument,
                  callee.parameters[position]? = some parameter →
                  arguments[position]? = some argument →
                    entered.cell (callee.cellAt parameter) =
                      processor.cell (caller.cellAt argument)) ∧
                ∀ leaving, Unharmed caller processor entered leaving →
                  ∃ returned after,
                    Instr.run hardware epilogue leaving = .ret returnAddress returned ∧
                      Instr.run hardware take returned = .next after ∧
                      after.stackPointer = processor.stackPointer ∧
                      after.frameBase = processor.frameBase ∧
                      after.cell (caller.cellAt target) = leaving.half .rax ∧
                      ∀ slot, caller.HasSlot slot → slot ≠ target →
                        after.cell (caller.cellAt slot) = processor.cell (caller.cellAt slot) := by
  obtain ⟨formed, laid⟩ := callerLowered.kept
  obtain ⟨calleeFormed, calleeLaid⟩ := calleeLowered.kept
  obtain ⟨targetKnown, known, call_eq⟩ :=
    emitInstruction_call (formed.blocks_formed id block found) member
  refine ⟨_, _, _, call_eq, spillParameters_eq _ calleeFormed.parameters_known, ?_⟩
  intro hardware processor stack_eq aligned
  have few : arguments.length ≤ 2 ^ 56 := by
    have fit := calleeLaid.parameters_fit
    unfold Frame.maxParameters at fit
    omega
  obtain ⟨atCall, atCall_eq, passing⟩ := atCall_passCode hardware laid known few stack_eq
  have atCall_aligned : 16 ∣ atCall.stackPointer.toNat := by
    have frame_dvd : 16 ∣ frameSize caller := (frameSize_isLeast caller).1.1
    have bytes_dvd := sixteen_dvd_stackBytes arguments.length
    rw [passing.stack_eq]
    exact sixteen_dvd_displaced aligned (by omega)
  refine ⟨atCall, atCall_eq, atCall_aligned, fun returnAddress => ?_⟩
  obtain ⟨entered, entered_eq, entering⟩ :=
    entered_entryCode hardware calleeLaid calleeFormed.parameters_known returnAddress atCall
  refine ⟨entered, entered_eq, entering.stack_eq, ?_, ?_, fun leaving =>
    exists_returned hardware laid calleeLaid passing entering count_eq stack_eq targetKnown⟩
  · rw [entering.base_eq]
    exact sixteen_dvd_displaced atCall_aligned (by decide)
  · intro position parameter argument parameterAt argumentAt
    rw [entering.parameters position parameter parameterAt,
      passing.passed position argument argumentAt]

/-- The text of a program with a function of eight parameters and a call of it. -/
def eightText : String :=
  "int f(int a,int b,int c,int d,int e,int g,int h,int i)\x7breturn i;\x7d" ++
    "int main()\x7breturn f(1,2,3,4,5,6,7,8);\x7d"

/-- A call with two arguments on the stack, of a function that leaves everything alone. -/
theorem call_keeps_convention_eight :
    ∃ caller callee : Graph, caller.Lowered ∧ callee.Lowered ∧ callee.parameters.length = 8 ∧
      ∃ target arguments pass take spills, arguments.length = 8 ∧
        emitInstruction caller (.call target "f" arguments) = .ok (pass ++ .call "f" :: take) ∧
        spillParameters callee Register.arguments callee.parameters = .ok spills ∧
        ∃ (hardware : Hardware) (processor atCall entered returned after : Processor),
          Instr.run hardware pass processor = .next atCall ∧ 16 ∣ atCall.stackPointer.toNat ∧
            Instr.run hardware (prologue (frameSize callee) ++ spills) (atCall.pushed 0) =
              .next entered ∧
            Instr.run hardware epilogue entered = .ret 0 returned ∧
            Instr.run hardware take returned = .next after ∧
            after.stackPointer = processor.stackPointer ∧
            after.cell (caller.cellAt target) = entered.half .rax := by
  have evaluated : (parseProgram eightText.toList).toOption.any (fun program =>
      program.lower.toOption.any fun graphs =>
        graphs[0]?.any (fun (callee : Graph) => callee.parameters.length == 8) &&
          graphs[1]?.any fun (caller : Graph) =>
            (caller.blocks.get? (TableKey.ofIndex 0)).any fun block =>
            block.instructions.contains (.call (TableKey.ofIndex 0) "f"
              ((List.range' 1 8).map TableKey.ofIndex))) = true := by
    cbv
  obtain ⟨program, graphs, parsed, lowers, tested⟩ := exists_lowered_of_any evaluated
  simp only [Bool.and_eq_true, Option.any_eq_true, beq_iff_eq, List.contains_iff_mem] at tested
  obtain ⟨⟨callee, callee_eq, count_eq⟩, caller, caller_eq, block, found, member⟩ := tested
  have callerLowered : caller.Lowered :=
    ⟨_, program, graphs, parsed, lowers, List.mem_of_getElem? caller_eq⟩
  have calleeLowered : callee.Lowered :=
    ⟨_, program, graphs, parsed, lowers, List.mem_of_getElem? callee_eq⟩
  obtain ⟨pass, take, spills, call_eq, spills_eq, agrees⟩ :=
    call_keeps_convention callerLowered calleeLowered found member count_eq.symm
  obtain ⟨atCall, atCall_eq, aligned, enters⟩ := agrees (fun _ processor => processor.flags)
    ⟨fun _ => 0, displaced 1024 (-(frameSize caller : Int)), 1024, ⟨false, false, false⟩,
      fun _ => 0⟩ rfl (show 16 ∣ (1024 : BitVec 64).toNat by decide)
  obtain ⟨entered, entered_eq, -, -, -, leaves⟩ := enters 0
  obtain ⟨returned, after, returned_eq, after_eq, stack_eq, -, result_eq, -⟩ :=
    leaves entered ⟨rfl, rfl, rfl, fun _ _ => rfl⟩
  exact ⟨caller, callee, callerLowered, calleeLowered, count_eq, _, _, pass, take, spills, rfl,
    call_eq, spills_eq, _, _, atCall, entered, returned, after, atCall_eq, aligned, entered_eq,
    returned_eq, after_eq, stack_eq, result_eq⟩

end SmallC.Assembly
