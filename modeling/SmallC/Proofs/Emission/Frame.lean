import SmallC.Proofs.Emission.Code
import SmallC.Proofs.Lowering.Frames
import SmallC.Proofs.Semantics.Execution
import SmallC.Proofs.Semantics.Processor

/-!
# Slots in memory

A frame represents what the slots of a function hold when every slot has its number in its cell.
Storing into one cell changes that slot and no other, because cells do not overlap, and leaves the
saved frame base, the return address and everything else above the frame alone.
-/

namespace SmallC

/-! ## Cells of a frame -/

namespace Graph

variable {graph : Graph} {slot other : Slot}

theorem offset_cellAt {symbol : GraphSymbol} (found : graph.symbols.get? slot = some symbol) :
    (graph.cellAt slot).offset = symbol.frameOffset := by
  simp [cellAt, found]

namespace LaidOut

section

variable (laid : graph.LaidOut)
include laid

theorem fits_cellAt (known : graph.HasSlot slot) :
    -2 ^ 31 ≤ (graph.cellAt slot).offset ∧ (graph.cellAt slot).offset < 2 ^ 31 := by
  obtain ⟨symbol, found⟩ := exists_symbol known
  rw [offset_cellAt found, laid.frameOffset_eq found, ← Frame.fits_iff]
  unfold Frame.slotOffset
  split
  · rename_i isParameter
    exact Frame.fits_parameterOffset_iff.mpr (Nat.lt_of_lt_of_le isParameter laid.parameters_fit)
  · have fits := Frame.fits_iff.mp laid.next_fits
    unfold HasSlot at known
    rw [laid.next_eq] at fits
    rw [Frame.fits_iff]
    unfold Frame.placesBefore Frame.firstLocal at *
    omega

theorem apart_cellAt (known : graph.HasSlot slot) (otherKnown : graph.HasSlot other)
    (different : slot ≠ other) :
    (graph.cellAt slot).offset + 4 ≤ (graph.cellAt other).offset ∨
      (graph.cellAt other).offset + 4 ≤ (graph.cellAt slot).offset := by
  obtain ⟨symbol, found⟩ := exists_symbol known
  obtain ⟨otherSymbol, otherFound⟩ := exists_symbol otherKnown
  rw [offset_cellAt found, offset_cellAt otherFound]
  exact laid.hasFrame.cells_apart _ _ _ _ different found otherFound

/-- Every cell is part of the frame or above what the call left at the frame base. -/
theorem reserved_cellAt (known : graph.HasSlot slot) :
    -(Assembly.frameSize graph : Int) ≤ (graph.cellAt slot).offset ∧
      ((graph.cellAt slot).offset + 4 ≤ 0 ∨ 16 ≤ (graph.cellAt slot).offset) := by
  obtain ⟨symbol, found⟩ := exists_symbol known
  have apart := laid.hasFrame.base_apart slot symbol found
  have reserved := laid.hasFrame.locals_reserved slot symbol found
  rw [offset_cellAt found]
  omega

/-- The cell of a parameter that is passed on the stack. -/
theorem offset_cellAt_parameter {position : Nat} (found : graph.parameters[position]? = some slot)
    (onStack : Frame.registerParameters ≤ position) :
    (graph.cellAt slot).offset = 16 + 8 * (position - Frame.registerParameters : Nat) := by
  obtain ⟨symbol, symbol_eq, offset_eq⟩ := laid.hasFrame.parameter_offset position slot found
  rw [offset_cellAt symbol_eq, offset_eq]
  exact if_neg (Nat.not_lt.mpr onStack)

/-- No cell is above the parameters that are passed on the stack. -/
theorem cellAt_le (known : graph.HasSlot slot) :
    (graph.cellAt slot).offset + 4 ≤
      16 + 8 * (graph.parameters.length - Frame.registerParameters : Nat) := by
  obtain ⟨symbol, found⟩ := exists_symbol known
  rw [offset_cellAt found, laid.frameOffset_eq found]
  unfold Frame.slotOffset Frame.parameterOffset Frame.firstLocal Frame.firstStackParameter
  split_ifs <;> omega

theorem frameSize_lt : Assembly.frameSize graph < 2 ^ 32 := by
  have fits := Frame.fits_iff.mp laid.next_fits
  unfold Assembly.frameSize localsSize Frame.firstLocal
  omega

end

end LaidOut

/-- Whether a graph is that of a function of a program that is read and lowered. -/
def Lowered (graph : Graph) : Prop :=
  ∃ text program graphs, parseProgram text = .ok program ∧ program.lower = .ok graphs ∧
    graph ∈ graphs

theorem Lowered.kept (lowered : graph.Lowered) : graph.WellFormed ∧ graph.LaidOut := by
  obtain ⟨text, program, graphs, parsed, lowers, member⟩ := lowered
  have all := Lowering.functionLowered_of_lowerFunctions (Program.wellFormed_of_parse parsed) lowers
  obtain ⟨function, -, -, taken, functionLowered⟩ := exists_mem_of_forall₂ all member
  exact ⟨functionLowered.kept.formed, functionLowered.kept.laid⟩

end Graph

namespace Assembly

open SmallC.Graph Execution

variable {graph : Graph} {start processor : Processor} {store : Store} {memory : Memory}
  {slot : Slot}

/-! ## Frames in memory -/

/-- A store into the cell of one slot leaves the cells of the others. -/
theorem word_setWord_cellAt (laid : graph.LaidOut) (known : graph.HasSlot slot) {other : Slot}
    (otherKnown : graph.HasSlot other) (different : other ≠ slot) (memory : Memory)
    (base : BitVec 64) (value : BitVec 32) :
    (memory.setWord (displaced base (graph.cellAt slot).offset) value).word
        (displaced base (graph.cellAt other).offset) =
      memory.word (displaced base (graph.cellAt other).offset) := by
  have apart := laid.apart_cellAt known otherKnown different.symm
  have fits := laid.fits_cellAt known
  have otherFits := laid.fits_cellAt otherKnown
  refine Memory.word_congr fun index inside => ?_
  rw [displaced_displaced]
  exact memory.setWord_of_outside _ _ (by omega) ⟨by omega, by omega⟩

/-- Whether the byte at a distance from the frame base belongs to a cell. -/
def InCell (graph : Graph) (distance : Int) : Prop :=
  ∃ slot, graph.HasSlot slot ∧ (graph.cellAt slot).offset ≤ distance ∧
    distance < (graph.cellAt slot).offset + 4

/-- A memory that has what is in the slots in the cells of a frame.  The other bytes of the frame
and those above it are as they were at the start. -/
structure Represents (graph : Graph) (start : Processor) (store : Store) (memory : Memory) :
    Prop where
  cells : ∀ slot, graph.HasSlot slot →
    memory.word (displaced start.frameBase (graph.cellAt slot).offset) = (store slot).toBitVec
  kept : ∀ distance : Int, -(frameSize graph : Int) ≤ distance → distance < 2 ^ 61 →
    ¬InCell graph distance →
      memory (displaced start.frameBase distance) =
        start.memory (displaced start.frameBase distance)

/-- A store into a cell is a store into its slot. -/
theorem Represents.setWord (represents : Represents graph start store memory)
    (laid : graph.LaidOut) (known : graph.HasSlot slot) (value : Int32) :
    Represents graph start (Function.update store slot value)
      (memory.setWord (displaced start.frameBase (graph.cellAt slot).offset) value.toBitVec) := by
  have fits := laid.fits_cellAt known
  constructor
  · intro other otherKnown
    by_cases same : other = slot
    · subst same
      rw [Memory.word_setWord, Function.update_self]
    · rw [Function.update_of_ne same, ← represents.cells other otherKnown]
      exact word_setWord_cellAt laid known otherKnown same memory _ _
  · intro distance inFrame below outside
    have frame_lt := laid.frameSize_lt
    have beside : ¬((graph.cellAt slot).offset ≤ distance ∧
        distance < (graph.cellAt slot).offset + 4) := fun inside => outside ⟨slot, known, inside⟩
    rw [← represents.kept distance inFrame below outside]
    exact memory.setWord_of_outside _ _ (by omega) ⟨by omega, by omega⟩

/-- The eight bytes between two distances that no cell belongs to. -/
theorem Represents.quad_eq (represents : Represents graph start store memory) {distance : Int}
    (inFrame : -(frameSize graph : Int) ≤ distance) (below : distance + 8 ≤ 2 ^ 61)
    (outside : ∀ index < 8, ¬InCell graph (distance + (index : Nat))) :
    memory.quad (displaced start.frameBase distance) =
      start.memory.quad (displaced start.frameBase distance) := by
  refine Memory.quad_congr fun index inside => ?_
  rw [displaced_displaced]
  exact represents.kept _ (by omega) (by omega) (outside index inside)

/-- No cell has bytes of the saved frame base or of the return address. -/
theorem not_inCell_of_base (laid : graph.LaidOut) {distance : Int} (fromBase : 0 ≤ distance)
    (below : distance < 16) : ¬InCell graph distance := by
  rintro ⟨slot, known, fromCell, inCell⟩
  have apart := (laid.reserved_cellAt known).2
  omega

/-- The saved frame base and the return address are as they were. -/
theorem Represents.base_eq (represents : Represents graph start store memory)
    (laid : graph.LaidOut) :
    memory.quad start.frameBase = start.memory.quad start.frameBase ∧
      memory.quad (displaced start.frameBase 8) =
        start.memory.quad (displaced start.frameBase 8) := by
  have saved : memory.quad (displaced start.frameBase 0) =
      start.memory.quad (displaced start.frameBase 0) :=
    represents.quad_eq (by omega) (by omega) fun index inside =>
      not_inCell_of_base laid (by omega) (by omega)
  rw [displaced_zero] at saved
  exact ⟨saved, represents.quad_eq (by omega) (by omega) fun index inside =>
    not_inCell_of_base laid (by omega) (by omega)⟩

/-! ## Running in a frame -/

/-- A processor that runs in the frame it started with, where the slots hold what a store says. -/
structure Framed (graph : Graph) (start : Processor) (store : Store) (processor : Processor) :
    Prop where
  memory : Represents graph start store processor.memory
  base_eq : processor.frameBase = start.frameBase
  stack_eq : processor.stackPointer = start.stackPointer

/-- A processor after the frame is taken down: the value is in its register, and the stack and the
frame base are those of the caller. -/
structure Left (graph : Graph) (start : Processor) (store : Store) (value : Option Int32)
    (processor : Processor) : Prop where
  memory : Represents graph start store processor.memory
  result : ∀ number ∈ value, processor.half .rax = number.toBitVec
  base_eq : processor.frameBase = start.memory.quad start.frameBase
  stack_eq : processor.stackPointer = displaced start.frameBase 16

/-- Whether processors differ only in their general registers and flags. -/
structure Aside (processor scratch : Processor) : Prop where
  memory_eq : scratch.memory = processor.memory
  base_eq : scratch.frameBase = processor.frameBase
  stack_eq : scratch.stackPointer = processor.stackPointer

namespace Framed

theorem aside (framed : Framed graph start store processor) {scratch : Processor}
    (isAside : Aside processor scratch) : Framed graph start store scratch where
  memory := isAside.memory_eq ▸ framed.memory
  base_eq := isAside.base_eq.trans framed.base_eq
  stack_eq := isAside.stack_eq.trans framed.stack_eq

theorem cell_eq (framed : Framed graph start store processor) (known : graph.HasSlot slot) :
    processor.cell (graph.cellAt slot) = (store slot).toBitVec := by
  rw [Processor.cell, Processor.address, framed.base_eq]
  exact framed.memory.cells slot known

theorem setCell (framed : Framed graph start store processor) (laid : graph.LaidOut)
    (known : graph.HasSlot slot) (value : Int32) :
    Framed graph start (Function.update store slot value)
      (processor.setCell (graph.cellAt slot) value.toBitVec) where
  memory := by
    rw [Processor.setCell, Processor.address, framed.base_eq]
    exact framed.memory.setWord laid known value
  base_eq := framed.base_eq
  stack_eq := framed.stack_eq

end Framed

/-- Taking down a frame goes back to the return address above its base. -/
theorem run_epilogue (hardware : Hardware) (processor : Processor) :
    Instr.run hardware epilogue processor =
      .ret (processor.memory.quad (displaced processor.frameBase 8))
        { processor with
          stackPointer := displaced processor.frameBase 16
          frameBase := processor.memory.quad processor.frameBase } := by
  simp only [epilogue, Instr.run, Instr.effect, Processor.raised, Processor.top,
    displaced_displaced]
  rfl

end Assembly

end SmallC
