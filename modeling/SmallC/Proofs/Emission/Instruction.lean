import SmallC.Proofs.Emission.Frame
import SmallC.Proofs.Emission.Operator

/-!
# The code of single instructions

The code of an instruction that stores a result works in scratch registers and ends with one store
into the cell of its target, so it does not matter which of its slots are the same.  It faults where
the operator does.  The other code ends by going somewhere else: to the block of a jump, to the
block that a test selects, or back to the caller.
-/

namespace SmallC.Assembly

open SmallC.Graph Execution

variable {hardware : Hardware} {graph : Graph} {start processor scratch : Processor} {store : Store}
  {code : List Instr} {register : Register}

/-! ## Code that stores a result -/

/-- Code that stores a result into a cell and changes nothing else but general registers and flags,
or faults if there is no result. -/
def Stores (hardware : Hardware) (processor : Processor) (target : Cell) (code : List Instr) :
    Option Int32 → Prop
  | none => Instr.run hardware code processor = .fault
  | some value => ∃ scratch, Aside processor scratch ∧
      Instr.run hardware code processor = .next (scratch.setCell target value.toBitVec)

section Stores

variable {target left right source : Cell} {first second value : Int32}

/-- An instruction that works on registers comes before code that stores a result. -/
theorem Stores.cons {instr : Instr} {result : Option Int32}
    (stores : Stores hardware scratch target code result)
    (effect_eq : instr.effect hardware processor = .next scratch)
    (isAside : Aside processor scratch) :
    Stores hardware processor target (instr :: code) result := by
  have run_eq := Instr.run_cons_of_next effect_eq code
  cases result with
  | none => exact run_eq.trans stores
  | some value =>
    obtain ⟨last, lastAside, last_eq⟩ := stores
    refine ⟨last, ⟨?_, ?_, ?_⟩, run_eq.trans last_eq⟩
    · exact lastAside.memory_eq.trans isAside.memory_eq
    · exact lastAside.base_eq.trans isAside.base_eq
    · exact lastAside.stack_eq.trans isAside.stack_eq

/-- The last instruction stores a register. -/
theorem stores_register (half_eq : scratch.half register = value.toBitVec) :
    Stores hardware scratch target [.store target register] (some value) :=
  ⟨scratch, ⟨rfl, rfl, rfl⟩, by rw [Instr.run, Instr.effect, half_eq]; rfl⟩

theorem stores_constant (value : Int32) :
    Stores hardware processor target [.storeImmediate target value] (some value) :=
  ⟨processor, ⟨rfl, rfl, rfl⟩, rfl⟩

theorem stores_copy (source_eq : processor.cell source = value.toBitVec) :
    Stores hardware processor target [.load .rax source, .store target .rax] (some value) := by
  refine Stores.cons ?_ rfl ⟨rfl, rfl, rfl⟩
  exact stores_register (by rw [Processor.half_setHalf, source_eq])

/-- The operators that one instruction computes. -/
theorem stores_alu (op : AluOp) (left_eq : processor.cell left = first.toBitVec)
    (right_eq : processor.cell right = second.toBitVec)
    (result_eq : op.result first.toBitVec second.toBitVec = value.toBitVec) :
    Stores hardware processor target
      [.load .rax left, .alu op .rax right, .store target .rax] (some value) := by
  refine Stores.cons (Stores.cons ?_ rfl ⟨rfl, rfl, rfl⟩) rfl ⟨rfl, rfl, rfl⟩
  refine stores_register ?_
  rw [Processor.half_withFlags, Processor.half_setHalf, Processor.half_setHalf,
    Processor.cell_setHalf, left_eq, right_eq, result_eq]

theorem stores_shift (op : ShiftOp) (left_eq : processor.cell left = first.toBitVec)
    (right_eq : processor.cell right = second.toBitVec)
    (result_eq : op.result first.toBitVec ((second.toBitVec.setWidth 8).toNat % 32) =
      value.toBitVec) :
    Stores hardware processor target
      [.load .rax left, .load .rcx right, .shift op .rax .rcx, .store target .rax]
      (some value) := by
  have different : Register.rax ≠ .rcx := by decide
  refine Stores.cons (Stores.cons (Stores.cons ?_ rfl ⟨rfl, rfl, rfl⟩) rfl ⟨rfl, rfl, rfl⟩) rfl
    ⟨rfl, rfl, rfl⟩
  refine stores_register ?_
  rw [Processor.half_withFlags, Processor.half_setHalf,
    Processor.half_setHalf_of_ne _ _ _ _ different, Processor.half_setHalf,
    Processor.byte_setHalf, Processor.cell_setHalf, left_eq, right_eq,
    result_eq]

/-- Division leaves the quotient in one register and the remainder in another. -/
theorem stores_divided {result : Int32}
    (high_eq : scratch.half .rdx = if first.toBitVec.msb then -1 else 0)
    (low_eq : scratch.half .rax = first.toBitVec) (right_eq : scratch.cell right = second.toBitVec)
    (result_eq : ∀ other : Processor,
      ((other.setHalf .rax (first / second).toBitVec).setHalf .rdx
        (first % second).toBitVec).half register = result.toBitVec) :
    Stores hardware scratch target [.divide right, .store target register]
      (if divides first second then some result else none) := by
  have divided := divided?_signExtended first second
  rw [← high_eq, ← low_eq, ← right_eq] at divided
  by_cases divisible : divides first second = true
  · rw [if_pos divisible] at divided ⊢
    have effect_eq : (Instr.divide right).effect hardware scratch =
        .next (((scratch.setHalf .rax (first / second).toBitVec).setHalf .rdx
          (first % second).toBitVec).withFlags (hardware (.divide right) scratch)) := by
      rw [Instr.effect, divided]
    refine Stores.cons (stores_register ?_) effect_eq ⟨rfl, rfl, rfl⟩
    rw [Processor.half_withFlags, result_eq]
  · rw [if_neg divisible] at divided ⊢
    rw [Stores, Instr.run, Instr.effect, divided]

theorem stores_divide {result : Int32} (left_eq : processor.cell left = first.toBitVec)
    (right_eq : processor.cell right = second.toBitVec)
    (result_eq : ∀ other : Processor,
      ((other.setHalf .rax (first / second).toBitVec).setHalf .rdx
        (first % second).toBitVec).half register = result.toBitVec) :
    Stores hardware processor target
      [.load .rax left, .signExtend, .divide right, .store target register]
      (if divides first second then some result else none) := by
  refine Stores.cons (Stores.cons ?_ rfl ⟨rfl, rfl, rfl⟩) rfl ⟨rfl, rfl, rfl⟩
  refine stores_divided ?_ ?_ right_eq result_eq
  · rw [Processor.half_setHalf, Processor.half_setHalf, left_eq]
  · rw [Processor.half_setHalf_of_ne _ _ _ _ (by decide), Processor.half_setHalf, left_eq]

theorem stores_arithmetic (op : ArithmeticOp) (left_eq : processor.cell left = first.toBitVec)
    (right_eq : processor.cell right = second.toBitVec) :
    Stores hardware processor target (arithmeticCode op target left right)
      (op.apply first second) := by
  cases op with
  | add => exact stores_alu .add left_eq right_eq Int32.toBitVec_add.symm
  | subtract => exact stores_alu .subtract left_eq right_eq Int32.toBitVec_sub.symm
  | multiply => exact stores_alu .multiply left_eq right_eq Int32.toBitVec_mul.symm
  | divide =>
    refine stores_divide left_eq right_eq fun other => ?_
    rw [Processor.half_setHalf_of_ne _ _ _ _ (by decide), Processor.half_setHalf]
  | modulus => exact stores_divide left_eq right_eq fun other => other.half_setHalf _ _
  | bitwiseAnd => exact stores_alu .and left_eq right_eq (Int32.toBitVec_and _ _).symm
  | bitwiseOr => exact stores_alu .or left_eq right_eq (Int32.toBitVec_or _ _).symm
  | bitwiseXor => exact stores_alu .xor left_eq right_eq (Int32.toBitVec_xor _ _).symm
  | shiftLeft => exact stores_shift .left left_eq right_eq (ShiftOp.result_left _ _)
  | shiftRight => exact stores_shift .right left_eq right_eq (ShiftOp.result_right _ _)

/-- The outcome of a comparison goes through the lowest byte of a register. -/
theorem stores_set (op : CompareOp) (scratch : Processor) :
    Stores hardware scratch target [.set op .rax, .zeroExtend .rax, .store target .rax]
      (some (truth (scratch.flags.holds op))) := by
  refine Stores.cons (Stores.cons ?_ rfl ⟨rfl, rfl, rfl⟩) rfl ⟨rfl, rfl, rfl⟩
  exact stores_register (by rw [Processor.half_setHalf, Processor.byte_setByte, setWidth_truth])

theorem stores_compare (op : CompareOp) (left_eq : processor.cell left = first.toBitVec)
    (right_eq : processor.cell right = second.toBitVec) :
    Stores hardware processor target (compareCode op target left right)
      (some (op.apply first second)) := by
  refine Stores.cons (Stores.cons ?_ rfl ⟨rfl, rfl, rfl⟩) rfl ⟨rfl, rfl, rfl⟩
  rw [Processor.half_setHalf, Processor.cell_setHalf, left_eq, right_eq, CompareOp.apply,
    ← Flags.holds_ofDifference]
  exact stores_set op _

/-- An instruction that computes its result in the cell itself. -/
theorem stores_inPlace {instr : Instr} {result : BitVec 32} {flags : Flags}
    (effect_eq : instr.effect hardware processor =
      .next ((processor.setCell target result).withFlags flags))
    (result_eq : result = value.toBitVec) :
    Stores hardware processor target [instr] (some value) :=
  ⟨processor.withFlags flags, ⟨rfl, rfl, rfl⟩, by rw [Instr.run, effect_eq, result_eq]; rfl⟩

theorem stores_unary (op : UnaryOp) (value_eq : processor.cell target = value.toBitVec) :
    Stores hardware processor target (unaryCode op target) (some (op.apply value)) := by
  cases op with
  | negate => exact stores_inPlace rfl (by rw [value_eq, UnaryOp.apply, Int32.toBitVec_neg])
  | bitwiseNot => exact stores_inPlace rfl (by rw [value_eq, UnaryOp.apply, Int32.toBitVec_not])
  | logicalNot =>
    refine Stores.cons ?_ rfl ⟨rfl, rfl, rfl⟩
    have isZero := Flags.zero_ofDifference value 0
    rw [value_eq, UnaryOp.apply, ← isZero]
    exact stores_set .equal _

theorem stores_step (op : StepOp) (value_eq : processor.cell target = value.toBitVec) :
    Stores hardware processor target (stepCode op target) (some (op.apply value)) := by
  cases op with
  | increment => exact stores_inPlace rfl (by rw [value_eq, StepOp.apply, Int32.toBitVec_add]; rfl)
  | decrement => exact stores_inPlace rfl (by rw [value_eq, StepOp.apply, Int32.toBitVec_sub]; rfl)

end Stores

/-! ## What code does for an instruction -/

/-- Code that does in a frame what an instruction does to the slots: it goes on where the
instruction does, in the same frame, and faults where the instruction does. -/
def Performs (graph : Graph) (start : Processor) (store : Store) (effect : Effect) : Action → Prop
  | .proceed after => ∃ processor, effect = .next processor ∧ Framed graph start after processor
  | .fault => effect = .fault
  | .call _ _ _ => False
  | .leave value => ∃ processor,
      effect = .ret (start.memory.quad (displaced start.frameBase 8)) processor ∧
        Left graph start store value processor
  | .jump target => ∃ processor,
      effect = .jump (graph.labelAt target) processor ∧ Framed graph start store processor

theorem performs_of_stores {target : Slot} {result : Option Int32} (laid : graph.LaidOut)
    (framed : Framed graph start store processor) (known : graph.HasSlot target)
    (stores : Stores hardware processor (graph.cellAt target) code result) :
    Performs graph start store (Instr.run hardware code processor)
      (storing store target result) := by
  cases result with
  | none => exact stores
  | some value =>
    obtain ⟨scratch, isAside, run_eq⟩ := stores
    exact ⟨_, run_eq, (framed.aside isAside).setCell laid known value⟩

/-- Taking down the frame goes back to the caller. -/
theorem left_epilogue (hardware : Hardware) (laid : graph.LaidOut)
    (framed : Framed graph start store processor) {value : Option Int32}
    (result : ∀ number ∈ value, processor.half .rax = number.toBitVec) :
    ∃ after, Instr.run hardware epilogue processor =
        .ret (start.memory.quad (displaced start.frameBase 8)) after ∧
      Left graph start store value after := by
  obtain ⟨savedBase, returnAddress⟩ := framed.memory.base_eq laid
  rw [run_epilogue, framed.base_eq, savedBase, returnAddress]
  exact ⟨_, rfl, framed.memory, result, rfl, rfl⟩

theorem hasSlot_of_ret {value : Option Slot}
    (formed : (Instruction.ret value).WellFormed graph.HasSlot graph.HasBlock) :
    ∀ slot ∈ value, graph.HasSlot slot := by
  simpa [Instruction.ret, KnowsOperand] using knowsOperand_of_wellFormed formed

/-- The code of every instruction but a call does what the instruction does. -/
theorem performs_of_codeOf {instruction : Instruction} (laid : graph.LaidOut)
    (formed : instruction.WellFormed graph.HasSlot graph.HasBlock)
    (codeOf : CodeOf graph instruction code)
    (noCall : ∀ target function arguments, instruction ≠ .call target function arguments)
    (framed : Framed graph start store processor) :
    ∃ action, perform store instruction = some action ∧
      Performs graph start store (Instr.run hardware code processor) action := by
  cases codeOf with
  | loadConstant target value =>
    cases formed with
    | loadConstant _ known =>
      exact ⟨_, rfl, performs_of_stores laid framed known (stores_constant value)⟩
  | copy target source =>
    cases formed with
    | copy known sourceKnown =>
      exact ⟨_, rfl, performs_of_stores laid framed known
        (stores_copy (framed.cell_eq sourceKnown))⟩
  | arithmetic op target left right =>
    cases formed with
    | arithmetic _ known leftKnown rightKnown =>
      exact ⟨_, rfl, performs_of_stores laid framed known
        (stores_arithmetic op (framed.cell_eq leftKnown) (framed.cell_eq rightKnown))⟩
  | compare op target left right =>
    cases formed with
    | compare _ known leftKnown rightKnown =>
      exact ⟨_, rfl, performs_of_stores laid framed known
        (stores_compare op (framed.cell_eq leftKnown) (framed.cell_eq rightKnown))⟩
  | unary op target =>
    cases formed with
    | unary _ known =>
      exact ⟨_, rfl, performs_of_stores laid framed known (stores_unary op (framed.cell_eq known))⟩
  | step op target =>
    cases formed with
    | step _ known =>
      exact ⟨_, rfl, performs_of_stores laid framed known (stores_step op (framed.cell_eq known))⟩
  | call target function arguments => exact absurd rfl (noCall target function arguments)
  | ret value =>
    refine ⟨_, perform_ret store value, ?_⟩
    cases value with
    | none => exact left_epilogue hardware laid framed fun _ noValue => by cases noValue
    | some slot =>
      have loaded : Framed graph start store
          (processor.setHalf .rax (processor.cell (graph.cellAt slot))) :=
        framed.aside ⟨rfl, rfl, rfl⟩
      refine left_epilogue hardware laid loaded ?_
      rintro number ⟨⟩
      rw [Processor.half_setHalf, framed.cell_eq (hasSlot_of_ret formed slot rfl)]
  | jump target => exact ⟨_, rfl, processor, rfl, framed⟩

/-- What the exit of a block does, as an action. -/
def exitAction (store : Store) (terminator : Terminator) : Action :=
  (successor? store terminator).elim (.leave none) .jump

/-- The code after the instructions of a block goes to the block that its exit selects, or takes
down the frame. -/
theorem performs_exitCode (laid : graph.LaidOut) {terminator : Terminator}
    (formed : terminator.WellFormed graph.HasSlot graph.HasBlock)
    (framed : Framed graph start store processor) :
    Performs graph start store (Instr.run hardware (exitCode graph terminator) processor)
      (exitAction store terminator) := by
  cases terminator with
  | ret => exact left_epilogue hardware laid framed fun _ noValue => by cases noValue
  | jump target => exact ⟨processor, rfl, framed⟩
  | branch test onTrue onFalse =>
    have comparing : (Instr.compareZero (graph.cellAt test)).effect hardware processor =
        .next (processor.withFlags (.ofDifference (store test).toBitVec 0)) := by
      rw [Instr.effect, framed.cell_eq formed.1]
    have compared : Framed graph start store
        (processor.withFlags (.ofDifference (store test).toBitVec 0)) :=
      framed.aside ⟨rfl, rfl, rfl⟩
    have isZero : (processor.withFlags (.ofDifference (store test).toBitVec 0)).flags.zero =
        (store test == 0) :=
      Flags.zero_ofDifference (store test) 0
    refine ⟨_, ?_, compared⟩
    rw [exitCode, Instr.run_cons_of_next comparing, Instr.run, Instr.effect, isZero]
    by_cases zero : store test = 0
    · simp [zero]
    · simp [zero, Instr.run, Instr.effect]

end SmallC.Assembly
