import SmallC.Compilation
import SmallC.Proofs.Graph.Invariant

/-!
# Well-formed graphs can be shown

Listings look up slots and blocks, and fail only on what is not there.  In a well-formed graph this
does not happen.
-/

namespace SmallC

namespace Graph

variable {graph : Graph}

/-! ## Listings -/

theorem exists_showSlot (palette : Palette) {slot : Slot} (known : graph.HasSlot slot) :
    ∃ text, graph.showSlot palette slot = .ok text := by
  obtain ⟨symbol, found⟩ := exists_symbol known
  simp [showSlot, symbol_eq_ok_iff.mpr found]

theorem exists_showBlock (palette : Palette) {id : BlockId} (known : graph.HasBlock id) :
    ∃ text, graph.showBlock palette id = .ok text := by
  obtain ⟨block, found⟩ := exists_block known
  simp [showBlock, block_eq_ok_iff.mpr found]

/-- An operand that refers only to what a graph has. -/
def KnowsOperand (graph : Graph) : Operand → Prop
  | .slot slot => graph.HasSlot slot
  | .label id => graph.HasBlock id
  | .literal _ => True
  | .function _ => True

/-- A well-formed instruction refers only to what the graph has. -/
theorem knowsOperand_of_wellFormed {instruction : Instruction}
    (formed : instruction.WellFormed graph.HasSlot graph.HasBlock) :
    ∀ operand ∈ instruction.operands, graph.KnowsOperand operand :=
  formed.operands (fun _ known => known) (fun _ known => known) (fun _ => trivial) fun _ => trivial

section

variable (palette : Palette)
include palette

theorem exists_showOperand {operand : Operand} (known : graph.KnowsOperand operand) :
    ∃ text, graph.showOperand palette operand = .ok text := by
  cases operand with
  | slot slot => exact exists_showSlot palette known
  | literal value => exact ⟨_, rfl⟩
  | label id => exact exists_showBlock palette known
  | function name => exact ⟨_, rfl⟩

theorem exists_showOperands {operands : List Operand}
    (known : ∀ operand ∈ operands, graph.KnowsOperand operand) :
    ∃ texts, graph.showOperands palette operands = .ok texts := by
  induction operands with
  | nil => exact ⟨[], rfl⟩
  | cons first others ih =>
    rw [List.forall_mem_cons] at known
    obtain ⟨text, first_eq⟩ := exists_showOperand palette known.1
    obtain ⟨texts, others_eq⟩ := ih known.2
    exact ⟨text :: texts, by simp [showOperands, first_eq, others_eq]⟩

theorem exists_showInstruction {instruction : Instruction}
    (formed : instruction.WellFormed graph.HasSlot graph.HasBlock) :
    ∃ text, graph.showInstruction palette instruction = .ok text := by
  obtain ⟨texts, operands_eq⟩ := exists_showOperands palette (knowsOperand_of_wellFormed formed)
  simp [showInstruction, operands_eq]

theorem exists_showInstructions {instructions : List Instruction}
    (formed : ∀ instruction ∈ instructions, instruction.WellFormed graph.HasSlot graph.HasBlock) :
    ∃ text, graph.showInstructions palette instructions = .ok text := by
  induction instructions with
  | nil => exact ⟨"", rfl⟩
  | cons first others ih =>
    rw [List.forall_mem_cons] at formed
    obtain ⟨line, line_eq⟩ := exists_showInstruction palette formed.1
    obtain ⟨lines, lines_eq⟩ := ih formed.2
    simp [showInstructions, line_eq, lines_eq]

theorem exists_showTerminator {terminator : Terminator}
    (formed : terminator.WellFormed graph.HasSlot graph.HasBlock) :
    ∃ text, graph.showTerminator palette terminator = .ok text := by
  cases terminator with
  | ret => exact ⟨_, rfl⟩
  | jump target =>
    obtain ⟨text, target_eq⟩ := exists_showBlock palette formed
    simp [showTerminator, target_eq]
  | branch test onTrue onFalse =>
    obtain ⟨testText, test_eq⟩ := exists_showSlot palette formed.1
    obtain ⟨trueText, true_eq⟩ := exists_showBlock palette formed.2.1
    obtain ⟨falseText, false_eq⟩ := exists_showBlock palette formed.2.2
    simp [showTerminator, test_eq, true_eq, false_eq]

/-- The blocks of a well-formed graph can be shown. -/
theorem exists_showBlocks (formed : graph.WellFormed) {ids : List BlockId}
    (known : ∀ id ∈ ids, graph.HasBlock id) : ∃ text, graph.showBlocks palette ids = .ok text := by
  induction ids with
  | nil => exact ⟨"", rfl⟩
  | cons first others ih =>
    rw [List.forall_mem_cons] at known
    obtain ⟨block, found⟩ := exists_block known.1
    have blockFormed := formed.blocks_formed first block found
    obtain ⟨lines, lines_eq⟩ := exists_showInstructions palette blockFormed.instructions
    obtain ⟨terminator, terminator_eq, terminatorFormed⟩ := blockFormed.exits
    obtain ⟨exit, exit_eq⟩ := exists_showTerminator palette terminatorFormed
    obtain ⟨rest, rest_eq⟩ := ih known.2
    simp [showBlocks, block_eq_ok_iff.mpr found, lines_eq, terminator_eq, exit_eq, rest_eq]

/-- A well-formed graph has a listing. -/
theorem exists_listing (formed : graph.WellFormed) : ∃ text, graph.listing palette = .ok text := by
  have parametersKnown : ∀ operand ∈ graph.parameters.map Operand.slot,
      graph.KnowsOperand operand := by
    simpa [KnowsOperand] using formed.parameters_known
  obtain ⟨parameters, parameters_eq⟩ := exists_showOperands palette parametersKnown
  obtain ⟨blocks, blocks_eq⟩ := exists_showBlocks palette formed formed.order_known
  simp [listing, parameters_eq, blocks_eq]

theorem exists_listings {graphs : List Graph} (formed : ∀ graph ∈ graphs, graph.WellFormed) :
    ∃ texts, listings palette graphs = .ok texts := by
  induction graphs with
  | nil => exact ⟨[], rfl⟩
  | cons first others ih =>
    rw [List.forall_mem_cons] at formed
    obtain ⟨text, text_eq⟩ := exists_listing palette formed.1
    obtain ⟨texts, texts_eq⟩ := ih formed.2
    simp [listings, text_eq, texts_eq]

end

end Graph

end SmallC
