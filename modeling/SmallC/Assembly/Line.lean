import SmallC.Assembly.Register
import SmallC.Operator

/-!
# Lines of assembly

The instructions that the compiler emits, as data, and the lines they are written on. An instruction
is written as its mnemonic and its operands; the text follows from these two views alone.
-/

namespace SmallC.Assembly

/-- A four-byte cell of the stack frame, by its offset from the frame base. -/
structure Cell where
  offset : Int
  deriving DecidableEq, Repr

/-- Operators that combine a register with a cell. -/
inductive AluOp where
  | add
  | subtract
  | multiply
  | and
  | or
  | xor
  deriving DecidableEq, Repr

/-- Shifts of a register. -/
inductive ShiftOp where
  | left
  | right
  deriving DecidableEq, Repr

/-- The instructions that the compiler emits. Numbers are moved and computed at 32 bits. -/
inductive Instr where
  /-- Saves the frame base on the stack. -/
  | pushBase
  /-- Restores the frame base from the stack. -/
  | popBase
  /-- Sets the frame base to the stack pointer. -/
  | setBase
  /-- Sets the stack pointer to the frame base. -/
  | resetStack
  | growStack (bytes : Nat)
  | shrinkStack (bytes : Nat)
  | push (source : Register)
  | loadImmediate (target : Register) (value : Int32)
  | storeImmediate (target : Cell) (value : Int32)
  | load (target : Register) (source : Cell)
  | store (target : Cell) (source : Register)
  | alu (op : AluOp) (target : Register) (source : Cell)
  /-- Extends `eax` by its sign into `edx`. -/
  | signExtend
  /-- Divides `edx:eax` by a cell: quotient in `eax`, remainder in `edx`. -/
  | divide (divisor : Cell)
  /-- Shifts a register by the lowest byte of another. -/
  | shift (op : ShiftOp) (target count : Register)
  | negate (target : Cell)
  | invert (target : Cell)
  /-- Adds one to a cell. -/
  | increment (target : Cell)
  /-- Subtracts one from a cell. -/
  | decrement (target : Cell)
  | compare (left : Register) (right : Cell)
  | compareZero (left : Cell)
  /-- Sets the lowest byte of a register to the outcome of a comparison. -/
  | set (condition : CompareOp) (target : Register)
  /-- Extends the lowest byte of a register by zeros. -/
  | zeroExtend (target : Register)
  | call (function : String)
  | ret
  | jump (label : String)
  | jumpIfEqual (label : String)
  deriving DecidableEq, Repr

/-- What can stand as an operand of an instruction. -/
inductive Operand where
  | register (register : Register) (width : Width)
  | stackPointer
  | frameBase
  | cell (cell : Cell)
  | immediate (value : Int)
  | symbol (name : String)
  deriving DecidableEq, Repr

/-! ## Text of instructions -/

/-- A cell as it is addressed from the frame base. -/
def Cell.text (cell : Cell) : String :=
  let sign := if cell.offset < 0 then "" else "+"
  "DWORD PTR [rbp" ++ sign ++ toString cell.offset ++ "]"

/-- An operand as it is written. -/
def Operand.text : Operand → String
  | .register which width => which.name width
  | .stackPointer => "rsp"
  | .frameBase => "rbp"
  | .cell place => place.text
  | .immediate value => toString value
  | .symbol name => name

/-- The mnemonic of an operator. -/
def AluOp.mnemonic : AluOp → String
  | .add => "add"
  | .subtract => "sub"
  | .multiply => "imul"
  | .and => "and"
  | .or => "or"
  | .xor => "xor"

/-- The mnemonic of a shift. -/
def ShiftOp.mnemonic : ShiftOp → String
  | .left => "sal"
  | .right => "sar"

/-- The mnemonic that sets a byte to the outcome of a comparison. -/
def setMnemonic : CompareOp → String
  | .equal => "sete"
  | .notEqual => "setne"
  | .less => "setl"
  | .lessOrEqual => "setle"
  | .greater => "setg"
  | .greaterOrEqual => "setge"

namespace Instr

/-- The mnemonic of an instruction. -/
def mnemonic : Instr → String
  | .pushBase => "push"
  | .popBase => "pop"
  | .setBase => "mov"
  | .resetStack => "mov"
  | .growStack _ => "sub"
  | .shrinkStack _ => "add"
  | .push _ => "push"
  | .loadImmediate _ _ => "mov"
  | .storeImmediate _ _ => "mov"
  | .load _ _ => "mov"
  | .store _ _ => "mov"
  | .alu op _ _ => op.mnemonic
  | .signExtend => "cdq"
  | .divide _ => "idiv"
  | .shift op _ _ => op.mnemonic
  | .negate _ => "neg"
  | .invert _ => "not"
  | .increment _ => "add"
  | .decrement _ => "sub"
  | .compare _ _ => "cmp"
  | .compareZero _ => "cmp"
  | .set condition _ => setMnemonic condition
  | .zeroExtend _ => "movzx"
  | .call _ => "call"
  | .ret => "ret"
  | .jump _ => "jmp"
  | .jumpIfEqual _ => "je"

/-- The operands of an instruction, the changed one first. -/
def operands : Instr → List Operand
  | .pushBase => [.frameBase]
  | .popBase => [.frameBase]
  | .setBase => [.frameBase, .stackPointer]
  | .resetStack => [.stackPointer, .frameBase]
  | .growStack bytes => [.stackPointer, .immediate bytes]
  | .shrinkStack bytes => [.stackPointer, .immediate bytes]
  | .push source => [.register source .word64]
  | .loadImmediate target value => [.register target .word32, .immediate value.toInt]
  | .storeImmediate target value => [.cell target, .immediate value.toInt]
  | .load target source => [.register target .word32, .cell source]
  | .store target source => [.cell target, .register source .word32]
  | .alu _ target source => [.register target .word32, .cell source]
  | .signExtend => []
  | .divide divisor => [.cell divisor]
  | .shift _ target count => [.register target .word32, .register count .byte]
  | .negate target => [.cell target]
  | .invert target => [.cell target]
  | .increment target => [.cell target, .immediate 1]
  | .decrement target => [.cell target, .immediate 1]
  | .compare left right => [.register left .word32, .cell right]
  | .compareZero left => [.cell left, .immediate 0]
  | .set _ target => [.register target .byte]
  | .zeroExtend target => [.register target .word32, .register target .byte]
  | .call function => [.symbol function]
  | .ret => []
  | .jump label => [.symbol label]
  | .jumpIfEqual label => [.symbol label]

/-- An instruction as it is written. -/
def text (instr : Instr) : String :=
  match instr.operands with
  | [] => instr.mnemonic
  | operands => instr.mnemonic ++ " " ++ ", ".intercalate (operands.map Operand.text)

end Instr

/-! ## Lines -/

/-- A line of assembly. -/
inductive Line where
  | blank
  /-- Text that is written as it is, behind an indent. -/
  | verbatim (text : String)
  | label (name : String)
  | comment (text : String)
  | instr (instr : Instr)
  deriving DecidableEq, Repr

namespace Line

/-- A line without its end. -/
def text : Line → String
  | .blank => ""
  | .verbatim content => "    " ++ content
  | .label name => name ++ ":"
  | .comment content => "    # " ++ content
  | .instr content => "    " ++ content.text

/-- Lines as text, each with its end. -/
def render (lines : List Line) : String :=
  String.join (lines.map fun line => line.text ++ "\n")

end Line

end SmallC.Assembly
