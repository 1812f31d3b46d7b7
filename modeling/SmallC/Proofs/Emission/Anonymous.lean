import SmallC.Proofs.Emission.Lines
import SmallC.Proofs.Graph.Anonymous

/-!
# The assembly of graphs without names

Emission looks up where symbols are and how blocks are labelled.  The names of symbols show in
comments only, so without comments graphs with the same code have the same assembly.
-/

namespace SmallC.Assembly

open SmallC.Graph

/-! ## Code -/

section Code

variable (graph : Graph)

/-- The cell of a slot does not depend on the name of its symbol. -/
@[simp]
theorem cellOf_anonymous (slot : Slot) : cellOf graph.anonymous slot = cellOf graph slot := by
  have size_eq : graph.anonymous.symbols.size = graph.symbols.size := List.length_map _
  have get?_eq : graph.anonymous.symbols.get? slot =
      (graph.symbols.get? slot).map unnamed := List.getElem?_map
  unfold cellOf Graph.symbol Fault.ofTable Table.get Table.outOfBounds
  rw [get?_eq, size_eq]
  cases graph.symbols.get? slot <;> rfl

@[simp]
theorem block_anonymous (id : BlockId) : graph.anonymous.block id = graph.block id :=
  rfl

@[simp]
theorem cellOfOperand_anonymous (operand : SmallC.Operand) :
    cellOfOperand graph.anonymous operand = cellOfOperand graph operand := by
  simp [cellOfOperand]

@[simp]
theorem pushArguments_anonymous (operands : List SmallC.Operand) :
    pushArguments graph.anonymous operands = pushArguments graph operands := by
  induction operands with
  | nil => rfl
  | cons first others ih => simp [pushArguments, ih]

@[simp]
theorem loadArguments_anonymous (registers : List Register) (operands : List SmallC.Operand) :
    loadArguments graph.anonymous registers operands = loadArguments graph registers operands := by
  induction registers generalizing operands with
  | nil => simp [loadArguments]
  | cons register registers ih =>
    cases operands with
    | nil => rfl
    | cons first others => simp [loadArguments, ih]

@[simp]
theorem spillParameters_anonymous (registers : List Register) (slots : List Slot) :
    spillParameters graph.anonymous registers slots = spillParameters graph registers slots := by
  induction registers generalizing slots with
  | nil => simp [spillParameters]
  | cons register registers ih =>
    cases slots with
    | nil => rfl
    | cons first others => simp [spillParameters, ih]

@[simp]
theorem emitInstruction_anonymous (instruction : Instruction) :
    emitInstruction graph.anonymous instruction = emitInstruction graph instruction := by
  simp only [emitInstruction, emitCall, cellOfOperand_anonymous, pushArguments_anonymous,
    loadArguments_anonymous, block_anonymous]

@[simp]
theorem emitTerminator_anonymous (terminator : Terminator) :
    emitTerminator graph.anonymous terminator = emitTerminator graph terminator := by
  cases terminator <;> simp only [emitTerminator, cellOf_anonymous, block_anonymous]

end Code

/-! ## Lines -/

variable {options : Options} {graph other : Graph} {lines otherLines : List Line}

section

variable (plain : options.comments = false)
include plain

section

variable (same : SameCode graph other)
include same

theorem emitInstructions_of_sameCode {instructions : List Instruction}
    (emitted : emitInstructions options graph instructions = .ok lines)
    (otherEmitted : emitInstructions options other instructions = .ok otherLines) :
    lines = otherLines := by
  induction instructions generalizing lines otherLines with
  | nil =>
    cases emitted
    cases otherEmitted
    rfl
  | cons first others ih =>
    rcases emitInstructions_cons_eq_ok_iff.mp emitted with
      ⟨listing, code, rest, -, codeEmitted, restEmitted, rfl⟩
    rcases emitInstructions_cons_eq_ok_iff.mp otherEmitted with
      ⟨otherListing, otherCode, otherRest, -, otherCodeEmitted, otherRestEmitted, rfl⟩
    have code_eq : emitInstruction graph first = emitInstruction other first :=
      same.field_eq (fun graph => emitInstruction graph first)
        fun graph => emitInstruction_anonymous graph first
    rw [code_eq, otherCodeEmitted] at codeEmitted
    cases codeEmitted
    rw [ih restEmitted otherRestEmitted, commentLine, commentLine, plain]
    rfl

theorem emitBlocks_of_sameCode {ids : List BlockId}
    (emitted : emitBlocks options graph ids = .ok lines)
    (otherEmitted : emitBlocks options other ids = .ok otherLines) : lines = otherLines := by
  induction ids generalizing lines otherLines with
  | nil =>
    cases emitted
    cases otherEmitted
    rfl
  | cons first others ih =>
    rcases emitBlocks_cons_eq_ok_iff.mp emitted with
      ⟨block, code, exit, rest, found, blockLines, restEmitted, rfl⟩
    rcases emitBlocks_cons_eq_ok_iff.mp otherEmitted with
      ⟨otherBlock, otherCode, otherExit, otherRest, otherFound, otherBlockLines,
        otherRestEmitted, rfl⟩
    have block_eq : graph.blocks.get? first = other.blocks.get? first :=
      same.field_eq (fun graph => graph.blocks.get? first) fun _ => rfl
    rw [block_eq, otherFound] at found
    cases found
    have exit_eq : (block.terminator >>= emitTerminator graph) =
        (block.terminator >>= emitTerminator other) :=
      same.field_eq (fun graph => block.terminator >>= emitTerminator graph) fun graph => by
        rw [funext (emitTerminator_anonymous graph)]
    have exits := blockLines.exit_eq
    rw [exit_eq, otherBlockLines.exit_eq] at exits
    cases exits
    rw [ih restEmitted otherRestEmitted,
      emitInstructions_of_sameCode plain same blockLines.code_eq otherBlockLines.code_eq]

theorem emitFunction_of_sameCode (emitted : emitFunction options graph = .ok lines)
    (otherEmitted : emitFunction options other = .ok otherLines) : lines = otherLines := by
  simp only [emitFunction, bind_eq_ok_iff, pure_eq_ok, Except.ok.injEq] at emitted otherEmitted
  rcases emitted with ⟨spills, spilled, blocks, blocksEmitted, rfl⟩
  rcases otherEmitted with ⟨otherSpills, otherSpilled, otherBlocks, otherBlocksEmitted, rfl⟩
  have spills_eq : spillParameters graph Register.arguments graph.parameters =
      spillParameters other Register.arguments other.parameters :=
    same.field_eq (fun graph => spillParameters graph Register.arguments graph.parameters)
      fun graph => spillParameters_anonymous graph _ _
  have order_eq : graph.order = other.order := same.field_eq _ fun _ => rfl
  have name_eq : graph.name = other.name := same.field_eq _ fun _ => rfl
  have size_eq : frameSize graph = frameSize other := same.field_eq _ fun _ => rfl
  rw [spills_eq, otherSpilled] at spilled
  cases spilled
  rw [order_eq] at blocksEmitted
  rw [name_eq, size_eq, emitBlocks_of_sameCode plain same blocksEmitted otherBlocksEmitted]

end

theorem emitFunctions_of_sameCode {graphs others : List Graph}
    (same : List.Forall₂ SameCode graphs others)
    (emitted : emitFunctions options graphs = .ok lines)
    (otherEmitted : emitFunctions options others = .ok otherLines) : lines = otherLines := by
  induction same generalizing lines otherLines with
  | nil =>
    cases emitted
    cases otherEmitted
    rfl
  | cons first _ ih =>
    simp only [emitFunctions, bind_eq_ok_iff, pure_eq_ok, Except.ok.injEq] at emitted otherEmitted
    rcases emitted with ⟨function, functionEmitted, rest, restEmitted, rfl⟩
    rcases otherEmitted with
      ⟨otherFunction, otherFunctionEmitted, otherRest, otherRestEmitted, rfl⟩
    rw [emitFunction_of_sameCode plain first functionEmitted otherFunctionEmitted,
      ih restEmitted otherRestEmitted]

/-- Without comments, graphs with the same code have the same assembly. -/
theorem emitProgram_of_sameCode {graphs others : List Graph}
    (same : List.Forall₂ SameCode graphs others) (emitted : emitProgram options graphs = .ok lines)
    (otherEmitted : emitProgram options others = .ok otherLines) : lines = otherLines := by
  simp only [emitProgram, bind_eq_ok_iff, pure_eq_ok, Except.ok.injEq] at emitted otherEmitted
  rcases emitted with ⟨functions, functionsEmitted, rfl⟩
  rcases otherEmitted with ⟨otherFunctions, otherFunctionsEmitted, rfl⟩
  rw [emitFunctions_of_sameCode plain same functionsEmitted otherFunctionsEmitted]

end

end SmallC.Assembly
