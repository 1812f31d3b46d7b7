import SmallC.Proofs.Graph.Output

/-!
# The emitted code

Where slots and blocks are known, emission cannot fail, and the code of every form of instruction
is a list that is written down at once from the cells of its slots and the labels of its blocks.
-/

namespace SmallC

namespace Graph

/-- The cell of a slot. -/
def cellAt (graph : Graph) (slot : Slot) : Assembly.Cell :=
  ⟨((graph.symbols.get? slot).map (·.frameOffset)).getD 0⟩

/-- The label of a block. -/
def labelAt (graph : Graph) (id : BlockId) : String :=
  ((graph.blocks.get? id).map (·.label)).getD ""

theorem labelAt_of_get? {graph : Graph} {id : BlockId} {block : BasicBlock}
    (found : graph.blocks.get? id = some block) : graph.labelAt id = block.label := by
  simp [labelAt, found]

end Graph

namespace Assembly

open SmallC.Graph

variable {graph : Graph}

/-! ## Cells and arguments -/

theorem cellOf_eq {slot : Slot} (known : graph.HasSlot slot) :
    cellOf graph slot = .ok (graph.cellAt slot) := by
  obtain ⟨symbol, found⟩ := exists_symbol known
  simp [cellOf, symbol_eq_ok_iff.mpr found, cellAt, found]

theorem cellOfOperand_eq {slot : Slot} (known : graph.HasSlot slot) :
    cellOfOperand graph (.slot slot) = .ok (graph.cellAt slot) :=
  cellOf_eq known

/-- The code that pushes slots in the order given. -/
def pushCode (graph : Graph) (slots : List Slot) : List Instr :=
  slots.flatMap fun slot => [.load .rax (graph.cellAt slot), .push .rax]

/-- The code that loads slots into registers, as long as there are both. -/
def loadCode (graph : Graph) (registers : List Register) (slots : List Slot) : List Instr :=
  List.zipWith (fun register slot => .load register (graph.cellAt slot)) registers slots

/-- The code that stores registers into slots, as long as there are both. -/
def spillCode (graph : Graph) (registers : List Register) (slots : List Slot) : List Instr :=
  List.zipWith (fun register slot => .store (graph.cellAt slot) register) registers slots

variable {slots : List Slot}

theorem pushArguments_eq (known : ∀ slot ∈ slots, graph.HasSlot slot) :
    pushArguments graph (slots.map .slot) = .ok (pushCode graph slots) := by
  induction slots with
  | nil => rfl
  | cons first others ih =>
    rw [List.forall_mem_cons] at known
    simp [pushArguments, cellOfOperand_eq known.1, ih known.2, pushCode]

theorem loadArguments_eq (registers : List Register) (known : ∀ slot ∈ slots, graph.HasSlot slot) :
    loadArguments graph registers (slots.map .slot) = .ok (loadCode graph registers slots) := by
  induction registers generalizing slots with
  | nil => simp [loadArguments, loadCode]
  | cons register registers ih =>
    cases slots with
    | nil => rfl
    | cons first others =>
      rw [List.forall_mem_cons] at known
      simp [loadArguments, cellOfOperand_eq known.1, ih known.2, loadCode]

theorem spillParameters_eq (registers : List Register) (known : ∀ slot ∈ slots, graph.HasSlot slot) :
    spillParameters graph registers slots = .ok (spillCode graph registers slots) := by
  induction registers generalizing slots with
  | nil => simp [spillParameters, spillCode]
  | cons register registers ih =>
    cases slots with
    | nil => rfl
    | cons first others =>
      rw [List.forall_mem_cons] at known
      simp [spillParameters, cellOf_eq known.1, ih known.2, spillCode]

/-! ## Calls -/

/-- The code of a call before control leaves the caller. -/
def passCode (graph : Graph) (arguments : List Slot) : List Instr :=
  let onStack := arguments.drop Frame.registerParameters
  let pad := padding onStack.length
  (if 0 < pad then [.growStack pad] else []) ++ pushCode graph onStack.reverse ++
    loadCode graph Register.arguments arguments ++ [.loadImmediate .rax 0]

/-- The code of a call after control is back. -/
def takeCode (graph : Graph) (target : Slot) (arguments : List Slot) : List Instr :=
  let pushed := (arguments.drop Frame.registerParameters).length
  let bytes := 8 * pushed + padding pushed
  (if 0 < bytes then [.shrinkStack bytes] else []) ++ [.store (graph.cellAt target) .rax]

theorem emitCall_eq {target : Slot} {arguments : List Slot} (function : String)
    (targetKnown : graph.HasSlot target) (known : ∀ slot ∈ arguments, graph.HasSlot slot) :
    emitCall graph (.slot target) function (arguments.map .slot) =
      .ok (passCode graph arguments ++ .call function :: takeCode graph target arguments) := by
  have onStackKnown : ∀ slot ∈ (arguments.drop Frame.registerParameters).reverse,
      graph.HasSlot slot := fun slot member =>
    known slot (List.mem_of_mem_drop (List.mem_reverse.mp member))
  have pushes_eq := pushArguments_eq onStackKnown
  rw [List.map_reverse, List.map_drop] at pushes_eq
  simp [emitCall, pushes_eq, loadArguments_eq Register.arguments known,
    cellOfOperand_eq targetKnown, passCode, takeCode]

/-! ## Instructions -/

/-- The code of each form of instruction. -/
inductive CodeOf (graph : Graph) : Instruction → List Instr → Prop
  | loadConstant (target : Slot) (value : Int32) :
      CodeOf graph (.loadConstant target value) [.storeImmediate (graph.cellAt target) value]
  | copy (target source : Slot) :
      CodeOf graph (.copy target source)
        [.load .rax (graph.cellAt source), .store (graph.cellAt target) .rax]
  | arithmetic (op : ArithmeticOp) (target left right : Slot) :
      CodeOf graph (.arithmetic op target left right)
        (arithmeticCode op (graph.cellAt target) (graph.cellAt left) (graph.cellAt right))
  | compare (op : CompareOp) (target left right : Slot) :
      CodeOf graph (.compare op target left right)
        (compareCode op (graph.cellAt target) (graph.cellAt left) (graph.cellAt right))
  | unary (op : UnaryOp) (target : Slot) :
      CodeOf graph (.unary op target) (unaryCode op (graph.cellAt target))
  | step (op : StepOp) (target : Slot) :
      CodeOf graph (.step op target) (stepCode op (graph.cellAt target))
  | call (target : Slot) (function : String) (arguments : List Slot) :
      CodeOf graph (.call target function arguments)
        (passCode graph arguments ++ .call function :: takeCode graph target arguments)
  | ret (value : Option Slot) :
      CodeOf graph (.ret value)
        ((value.toList.map fun slot => .load .rax (graph.cellAt slot)) ++ epilogue)
  | jump (target : BlockId) : CodeOf graph (.jump target) [.jump (graph.labelAt target)]

/-- A well-formed instruction can be emitted. -/
theorem exists_codeOf {instruction : Instruction}
    (formed : instruction.WellFormed graph.HasSlot graph.HasBlock) :
    ∃ code, emitInstruction graph instruction = .ok code ∧ CodeOf graph instruction code := by
  cases formed with
  | loadConstant value target =>
    exact ⟨_, by simp [emitInstruction, Instruction.loadConstant, cellOfOperand_eq target],
      .loadConstant _ _⟩
  | copy target source =>
    exact ⟨_, by simp [emitInstruction, Instruction.copy, cellOfOperand_eq target,
      cellOfOperand_eq source], .copy _ _⟩
  | arithmetic op target left right =>
    exact ⟨_, by simp [emitInstruction, Instruction.arithmetic, cellOfOperand_eq target,
      cellOfOperand_eq left, cellOfOperand_eq right], .arithmetic op _ _ _⟩
  | compare op target left right =>
    exact ⟨_, by simp [emitInstruction, Instruction.compare, cellOfOperand_eq target,
      cellOfOperand_eq left, cellOfOperand_eq right], .compare op _ _ _⟩
  | unary op target =>
    exact ⟨_, by simp [emitInstruction, Instruction.unary, cellOfOperand_eq target], .unary op _⟩
  | step op target =>
    exact ⟨_, by simp [emitInstruction, Instruction.step, cellOfOperand_eq target], .step op _⟩
  | call function target arguments =>
    exact ⟨_, emitCall_eq function target arguments, .call _ function _⟩
  | @ret value slotsKnown =>
    cases value with
    | none => exact ⟨_, rfl, .ret none⟩
    | some slot =>
      exact ⟨_, by simp [emitInstruction, Instruction.ret, cellOfOperand_eq (slotsKnown slot rfl)],
        .ret (some slot)⟩
  | jump target =>
    obtain ⟨block, found⟩ := exists_block target
    exact ⟨_, by simp [emitInstruction, Instruction.jump, block_eq_ok_iff.mpr found,
      ← labelAt_of_get? found], .jump _⟩

/-- What is emitted for a well-formed instruction. -/
theorem codeOf_of_emitInstruction {instruction : Instruction} {code : List Instr}
    (formed : instruction.WellFormed graph.HasSlot graph.HasBlock)
    (emitted : emitInstruction graph instruction = .ok code) : CodeOf graph instruction code := by
  obtain ⟨other, other_eq, codeOf⟩ := exists_codeOf formed
  cases emitted.symm.trans other_eq
  exact codeOf

/-- The code of an exit. -/
def exitCode (graph : Graph) : Terminator → List Instr
  | .ret => epilogue
  | .jump target => [.jump (graph.labelAt target)]
  | .branch test onTrue onFalse =>
    [.compareZero (graph.cellAt test), .jumpIfEqual (graph.labelAt onFalse),
      .jump (graph.labelAt onTrue)]

theorem emitTerminator_eq {terminator : Terminator}
    (formed : terminator.WellFormed graph.HasSlot graph.HasBlock) :
    emitTerminator graph terminator = .ok (exitCode graph terminator) := by
  cases terminator with
  | ret => rfl
  | jump target =>
    obtain ⟨block, found⟩ := exists_block formed
    simp [emitTerminator, exitCode, block_eq_ok_iff.mpr found, labelAt_of_get? found]
  | branch test onTrue onFalse =>
    obtain ⟨trueBlock, true_found⟩ := exists_block formed.2.1
    obtain ⟨falseBlock, false_found⟩ := exists_block formed.2.2
    simp [emitTerminator, exitCode, cellOf_eq formed.1, block_eq_ok_iff.mpr true_found,
      block_eq_ok_iff.mpr false_found, labelAt_of_get? true_found, labelAt_of_get? false_found]

/-! ## Functions -/

theorem exists_emitInstructions (options : Options) {instructions : List Instruction}
    (formed : ∀ instruction ∈ instructions, instruction.WellFormed graph.HasSlot graph.HasBlock) :
    ∃ lines, emitInstructions options graph instructions = .ok lines := by
  induction instructions with
  | nil => exact ⟨[], rfl⟩
  | cons first others ih =>
    rw [List.forall_mem_cons] at formed
    obtain ⟨text, text_eq⟩ := exists_showInstruction options.palette formed.1
    obtain ⟨code, code_eq, -⟩ := exists_codeOf formed.1
    obtain ⟨lines, lines_eq⟩ := ih formed.2
    simp [emitInstructions, text_eq, code_eq, lines_eq]

/-- The blocks of a well-formed graph can be emitted. -/
theorem exists_emitBlocks (options : Options) (formed : graph.WellFormed) {ids : List BlockId}
    (known : ∀ id ∈ ids, graph.HasBlock id) :
    ∃ lines, emitBlocks options graph ids = .ok lines := by
  induction ids with
  | nil => exact ⟨[], rfl⟩
  | cons first others ih =>
    rw [List.forall_mem_cons] at known
    obtain ⟨block, found⟩ := exists_block known.1
    have blockFormed := formed.blocks_formed first block found
    obtain ⟨lines, lines_eq⟩ := exists_emitInstructions options blockFormed.instructions
    obtain ⟨terminator, terminator_eq, terminatorFormed⟩ := blockFormed.exits
    obtain ⟨rest, rest_eq⟩ := ih known.2
    simp [emitBlocks, block_eq_ok_iff.mpr found, lines_eq, terminator_eq,
      emitTerminator_eq terminatorFormed, rest_eq]

/-- A well-formed graph can be emitted. -/
theorem exists_emitFunction (options : Options) (formed : graph.WellFormed) :
    ∃ lines, emitFunction options graph = .ok lines := by
  have spills_eq := spillParameters_eq Register.arguments formed.parameters_known
  obtain ⟨blocks, blocks_eq⟩ := exists_emitBlocks options formed formed.order_known
  simp [emitFunction, spills_eq, blocks_eq]

theorem exists_emitFunctions (options : Options) {graphs : List Graph}
    (formed : ∀ graph ∈ graphs, graph.WellFormed) :
    ∃ lines, emitFunctions options graphs = .ok lines := by
  induction graphs with
  | nil => exact ⟨[], rfl⟩
  | cons first others ih =>
    rw [List.forall_mem_cons] at formed
    obtain ⟨lines, lines_eq⟩ := exists_emitFunction options formed.1
    obtain ⟨rest, rest_eq⟩ := ih formed.2
    simp [emitFunctions, lines_eq, rest_eq]

end Assembly

end SmallC
