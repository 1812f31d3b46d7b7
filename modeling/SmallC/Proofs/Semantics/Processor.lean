import SmallC.Assembly.Line
import SmallC.Proofs.Semantics.Memory

/-!
# Meaning of the emitted instructions

The part of the processor that the emitted instructions work on, and what each of them does to it.
Numbers are computed at 32 bits.  A register that gets 32 bits loses its upper half, and one that
gets a byte keeps the rest.  Flags that an instruction leaves undefined are up to the hardware.
-/

namespace SmallC.Assembly

/-! ## Flags -/

/-- The flags that conditions look at. -/
structure Flags where
  zero : Bool
  sign : Bool
  overflow : Bool
  deriving DecidableEq, Repr

namespace Flags

variable {width : Nat}

/-- The flags of a result. -/
def ofResult (result : BitVec width) (overflow : Bool) : Flags :=
  ⟨result == 0, result.msb, overflow⟩

/-- The flags of a sum. -/
def ofSum (left right : BitVec width) : Flags :=
  ofResult (left + right) (left.saddOverflow right)

/-- The flags of a difference, which are also those of a comparison. -/
def ofDifference (left right : BitVec width) : Flags :=
  ofResult (left - right) (left.ssubOverflow right)

/-- Whether flags that come from a comparison say that it holds. -/
def holds (flags : Flags) : CompareOp → Bool
  | .equal => flags.zero
  | .notEqual => !flags.zero
  | .less => flags.sign != flags.overflow
  | .lessOrEqual => flags.zero || flags.sign != flags.overflow
  | .greater => !flags.zero && flags.sign == flags.overflow
  | .greaterOrEqual => flags.sign == flags.overflow

end Flags

/-! ## Operators -/

/-- What an operator computes from a register and a cell. -/
def AluOp.result (op : AluOp) (left right : BitVec 32) : BitVec 32 :=
  match op with
  | .add => left + right
  | .subtract => left - right
  | .multiply => left * right
  | .and => left &&& right
  | .or => left ||| right
  | .xor => left ^^^ right

/-- The flags after an operator.  A product says only whether it overflowed. -/
def AluOp.flags (op : AluOp) (undefined : Flags) (left right : BitVec 32) : Flags :=
  match op with
  | .add => .ofSum left right
  | .subtract => .ofDifference left right
  | .multiply => { undefined with overflow := left.smulOverflow right }
  | _ => .ofResult (op.result left right) false

/-- What a shift by a number of places below 32 computes. -/
def ShiftOp.result (op : ShiftOp) (value : BitVec 32) (count : Nat) : BitVec 32 :=
  match op with
  | .left => value <<< count
  | .right => value.sshiftRight count

/-- The flags after a shift.  A shift by nothing leaves them, and whether a shift overflowed is
defined when it is by one place. -/
def ShiftOp.flags (op : ShiftOp) (undefined before : Flags) (value : BitVec 32) (count : Nat) :
    Flags :=
  let result := op.result value count
  if count = 0 then
    before
  else if count = 1 then
    match op with
    | .left => .ofResult result (result.msb ^^ value.msb)
    | .right => .ofResult result false
  else
    .ofResult result undefined.overflow

/-- The quotient and the remainder of numbers with signs, rounded towards zero.  There are none when
the divisor is zero or the quotient does not have 32 bits. -/
def divided? (dividend : BitVec 64) (divisor : BitVec 32) : Option (BitVec 32 × BitVec 32) :=
  let quotient := dividend.toInt.tdiv divisor.toInt
  if divisor ≠ 0 ∧ -2 ^ 31 ≤ quotient ∧ quotient < 2 ^ 31 then
    some (.ofInt 32 quotient, .ofInt 32 (dividend.toInt.tmod divisor.toInt))
  else
    none

/-! ## The processor -/

/-- What the emitted code works on. -/
@[ext]
structure Processor where
  registers : Register → BitVec 64
  stackPointer : BitVec 64
  frameBase : BitVec 64
  flags : Flags
  memory : Memory

namespace Processor

variable (processor : Processor)

/-- The lower half of a register. -/
def half (register : Register) : BitVec 32 :=
  (processor.registers register).setWidth 32

/-- The lowest byte of a register. -/
def byte (register : Register) : BitVec 8 :=
  (processor.registers register).setWidth 8

/-- The processor with another register. -/
def setRegister (register : Register) (value : BitVec 64) : Processor :=
  { processor with registers := Function.update processor.registers register value }

/-- Setting the lower half of a register clears its upper half. -/
def setHalf (register : Register) (value : BitVec 32) : Processor :=
  processor.setRegister register (value.setWidth 64)

/-- Setting the lowest byte of a register leaves the others. -/
def setByte (register : Register) (value : BitVec 8) : Processor :=
  processor.setRegister register ((processor.registers register).extractLsb' 8 56 ++ value)

/-- The address of a cell. -/
def address (cell : Cell) : BitVec 64 :=
  displaced processor.frameBase cell.offset

/-- What a cell holds. -/
def cell (cell : Cell) : BitVec 32 :=
  processor.memory.word (processor.address cell)

/-- The processor with another number in a cell. -/
def setCell (cell : Cell) (value : BitVec 32) : Processor :=
  { processor with memory := processor.memory.setWord (processor.address cell) value }

/-- The processor with other flags. -/
def withFlags (flags : Flags) : Processor :=
  { processor with flags := flags }

/-- The processor after a number is pushed on the stack. -/
def pushed (value : BitVec 64) : Processor :=
  { processor with
    stackPointer := displaced processor.stackPointer (-8)
    memory := processor.memory.setQuad (displaced processor.stackPointer (-8)) value }

/-- The number on top of the stack. -/
def top : BitVec 64 :=
  processor.memory.quad processor.stackPointer

/-- The processor with the stack pointer moved up by a number of bytes. -/
def raised (bytes : Int) : Processor :=
  { processor with stackPointer := displaced processor.stackPointer bytes }

section

variable (register other : Register) (value : BitVec 32) (flags : Flags) (place : Cell)

@[simp]
theorem half_setHalf : (processor.setHalf register value).half register = value := by
  simp [half, setHalf, setRegister]

@[simp]
theorem half_setHalf_of_ne (different : other ≠ register) :
    (processor.setHalf register value).half other = processor.half other := by
  simp [half, setHalf, setRegister, different]

@[simp]
theorem byte_setHalf : (processor.setHalf register value).byte register = value.setWidth 8 := by
  simp [byte, setHalf, setRegister]

@[simp]
theorem byte_setByte (value : BitVec 8) :
    (processor.setByte register value).byte register = value := by
  simp only [byte, setByte, setRegister, Function.update_self]
  exact BitVec.setWidth_append_eq_right

@[simp]
theorem half_withFlags : (processor.withFlags flags).half register = processor.half register :=
  rfl

@[simp]
theorem cell_setHalf : (processor.setHalf register value).cell place = processor.cell place :=
  rfl

end

end Processor

/-! ## Instructions -/

/-- What an instruction does. -/
inductive Effect where
  /-- Goes on to the next instruction. -/
  | next (processor : Processor)
  | fault
  | jump (label : String) (processor : Processor)
  | call (function : String) (processor : Processor)
  /-- Goes on at an address that was on the stack. -/
  | ret (address : BitVec 64) (processor : Processor)

/-- Flags that instructions leave undefined. -/
abbrev Hardware := Instr → Processor → Flags

namespace Instr

variable (hardware : Hardware)

/-- What an instruction does. -/
def effect (instr : Instr) (processor : Processor) : Effect :=
  match instr with
  | .pushBase => .next (processor.pushed processor.frameBase)
  | .popBase => .next { processor.raised 8 with frameBase := processor.top }
  | .setBase => .next { processor with frameBase := processor.stackPointer }
  | .resetStack => .next { processor with stackPointer := processor.frameBase }
  | .growStack bytes =>
    .next ((processor.raised (-bytes)).withFlags
      (.ofDifference processor.stackPointer (.ofNat 64 bytes)))
  | .shrinkStack bytes =>
    .next ((processor.raised bytes).withFlags (.ofSum processor.stackPointer (.ofNat 64 bytes)))
  | .push source => .next (processor.pushed (processor.registers source))
  | .loadImmediate target value => .next (processor.setHalf target value.toBitVec)
  | .storeImmediate target value => .next (processor.setCell target value.toBitVec)
  | .load target source => .next (processor.setHalf target (processor.cell source))
  | .store target source => .next (processor.setCell target (processor.half source))
  | .alu op target source =>
    let left := processor.half target
    let right := processor.cell source
    .next ((processor.setHalf target (op.result left right)).withFlags
      (op.flags (hardware instr processor) left right))
  | .signExtend =>
    .next (processor.setHalf .rdx (if (processor.half .rax).msb then -1 else 0))
  | .divide divisor =>
    match divided? (processor.half .rdx ++ processor.half .rax) (processor.cell divisor) with
    | none => .fault
    | some (quotient, remainder) =>
      .next (((processor.setHalf .rax quotient).setHalf .rdx remainder).withFlags
        (hardware instr processor))
  | .shift op target count =>
    let value := processor.half target
    let places := (processor.byte count).toNat % 32
    .next ((processor.setHalf target (op.result value places)).withFlags
      (op.flags (hardware instr processor) processor.flags value places))
  | .negate target =>
    let value := processor.cell target
    .next ((processor.setCell target (-value)).withFlags (.ofDifference 0 value))
  | .invert target => .next (processor.setCell target (~~~processor.cell target))
  | .increment target =>
    let value := processor.cell target
    .next ((processor.setCell target (value + 1)).withFlags (.ofSum value 1))
  | .decrement target =>
    let value := processor.cell target
    .next ((processor.setCell target (value - 1)).withFlags (.ofDifference value 1))
  | .compare left right =>
    .next (processor.withFlags (.ofDifference (processor.half left) (processor.cell right)))
  | .compareZero left => .next (processor.withFlags (.ofDifference (processor.cell left) 0))
  | .set condition target =>
    .next (processor.setByte target (if processor.flags.holds condition then 1 else 0))
  | .zeroExtend target => .next (processor.setHalf target ((processor.byte target).setWidth 32))
  | .call function => .call function processor
  | .ret => .ret processor.top (processor.raised 8)
  | .jump label => .jump label processor
  | .jumpIfEqual label => if processor.flags.zero then .jump label processor else .next processor

/-- What instructions do one after the other, up to the first that does not go on to the next. -/
def run : List Instr → Processor → Effect
  | [], processor => .next processor
  | first :: others, processor =>
    match first.effect hardware processor with
    | .next after => run others after
    | other => other

variable {hardware}

theorem run_cons_of_next {first : Instr} {processor after : Processor}
    (effect_eq : first.effect hardware processor = .next after) (others : List Instr) :
    run hardware (first :: others) processor = run hardware others after := by
  rw [run, effect_eq]

theorem run_append {code : List Instr} {processor after : Processor}
    (goesOn : run hardware code processor = .next after) (others : List Instr) :
    run hardware (code ++ others) processor = run hardware others after := by
  induction code generalizing processor with
  | nil =>
    cases goesOn
    rfl
  | cons first rest ih =>
    cases done : first.effect hardware processor with
    | next middle =>
      rw [run_cons_of_next done] at goesOn
      rw [List.cons_append, run_cons_of_next done, ih goesOn]
    | _ =>
      rw [run, done] at goesOn
      cases goesOn

end Instr

end SmallC.Assembly
