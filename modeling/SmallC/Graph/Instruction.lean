import SmallC.Operator
import SmallC.Table
import SmallC.Text.Quoted

/-!
# Instructions over slots

An instruction applies an operation to operands. Values live in slots, the entries of the symbol
table of a function. Which operands an operation takes, beyond their number, is only checked where
the instruction is used.
-/

namespace SmallC

/-- The key of a symbol of a function: a parameter, a variable or a temporary. -/
structure Slot where
  number : UInt32
  deriving DecidableEq, Repr

instance : TableKey Slot where
  ofNumber := Slot.mk
  number := Slot.number
  name := "Slot"
  number_ofNumber _ := rfl
  ofNumber_number _ := rfl

/-- The key of a basic block of a function. -/
structure BlockId where
  number : UInt32
  deriving DecidableEq, Repr

instance : TableKey BlockId where
  ofNumber := BlockId.mk
  number := BlockId.number
  name := "BlockId"
  number_ofNumber _ := rfl
  ofNumber_number _ := rfl

/-- What an instruction does. -/
inductive Operation where
  /-- Puts a number into a slot. -/
  | loadConstant
  /-- Copies the second operand into the first. -/
  | copyVariable
  /-- Puts the result for the last two operands into the first. -/
  | arithmetic (op : ArithmeticOp)
  /-- Puts zero or one into the first operand. -/
  | compare (op : CompareOp)
  /-- Changes its operand in place. -/
  | unary (op : UnaryOp)
  /-- Changes its operand by one. -/
  | step (op : StepOp)
  /-- Calls a function: destination, function, arguments. -/
  | call
  /-- Returns, with a value or without. -/
  | ret
  /-- Leaves the block for another one. -/
  | jump
  deriving DecidableEq, Repr

namespace Operation

/-- All operations. -/
def all : List Operation :=
  [.loadConstant, .copyVariable] ++ ArithmeticOp.all.map .arithmetic ++
    UnaryOp.all.map .unary ++ [.step .increment, .step .decrement] ++
    CompareOp.all.map .compare ++ [.call, .ret, .jump]

/-- An operation as it is written in listings. -/
def mnemonic : Operation → String
  | .loadConstant => "ldconst"
  | .copyVariable => "copyvar"
  | .arithmetic .add => "add"
  | .arithmetic .subtract => "sub"
  | .arithmetic .multiply => "mul"
  | .arithmetic .divide => "divide"
  | .arithmetic .modulus => "modulo"
  | .arithmetic .bitwiseAnd => "bwand"
  | .arithmetic .bitwiseOr => "bwor"
  | .arithmetic .bitwiseXor => "bwxor"
  | .arithmetic .shiftLeft => "bwsl"
  | .arithmetic .shiftRight => "bwsr"
  | .unary .negate => "neg"
  | .unary .bitwiseNot => "bwnot"
  | .unary .logicalNot => "lnot"
  | .step .increment => "incr"
  | .step .decrement => "decr"
  | .compare .equal => "cmp_eq"
  | .compare .notEqual => "cmp_ne"
  | .compare .greater => "cmp_gt"
  | .compare .less => "cmp_lt"
  | .compare .greaterOrEqual => "cmp_ge"
  | .compare .lessOrEqual => "cmp_le"
  | .call => "call"
  | .ret => "ret"
  | .jump => "jump"

/-- The full name of an operation. -/
def name : Operation → String
  | .loadConstant => "LoadConstant"
  | .copyVariable => "CopyVariable"
  | .arithmetic .add => "Add"
  | .arithmetic .subtract => "Subtract"
  | .arithmetic .multiply => "Multiply"
  | .arithmetic .divide => "Divide"
  | .arithmetic .modulus => "Modulo"
  | .arithmetic .bitwiseAnd => "BitwiseAnd"
  | .arithmetic .bitwiseOr => "BitwiseOr"
  | .arithmetic .bitwiseXor => "BitwiseXor"
  | .arithmetic .shiftLeft => "ShiftLeft"
  | .arithmetic .shiftRight => "ShiftRight"
  | .unary .negate => "Negate"
  | .unary .bitwiseNot => "BitwiseNot"
  | .unary .logicalNot => "LogicalNot"
  | .step .increment => "Increment"
  | .step .decrement => "Decrement"
  | .compare .equal => "CompareEqual"
  | .compare .notEqual => "CompareNotEqual"
  | .compare .greater => "CompareGreater"
  | .compare .less => "CompareLess"
  | .compare .greaterOrEqual => "CompareGreaterOrEqual"
  | .compare .lessOrEqual => "CompareLessOrEqual"
  | .call => "Call"
  | .ret => "Return"
  | .jump => "Jump"

/-- The operation with a given mnemonic. -/
def ofMnemonic? (text : String) : Option Operation :=
  all.find? (·.mnemonic == text)

/-- The operation that computes a binary operator. The logical operators have none, since they
decide which code runs. -/
def ofBinary? : BinaryOp → Option Operation
  | .arithmetic op => some (.arithmetic op)
  | .compare op => some (.compare op)
  | .logical _ => none

/-- Whether an operation takes a number of operands. -/
def accepts : Operation → Nat → Bool
  | .loadConstant, count => count == 2
  | .copyVariable, count => count == 2
  | .arithmetic _, count => count == 3
  | .compare _, count => count == 3
  | .unary _, count => count == 1
  | .step _, count => count == 1
  | .call, count => 2 ≤ count
  | .ret, count => count ≤ 1
  | .jump, count => count == 1

end Operation

/-- What an instruction refers to. -/
inductive Operand where
  | slot (slot : Slot)
  | literal (value : Int32)
  | label (block : BlockId)
  /-- A function by its name, marked when it is defined elsewhere. -/
  | function (name : String)
  deriving DecidableEq, Repr

/-- An operand with its kind, as shown in messages. -/
def Operand.describe : Operand → String
  | .slot key => "Slot(" ++ TableKey.show Slot key ++ ")"
  | .literal value => "Literal(" ++ toString value.toInt ++ ")"
  | .label key => "Label(" ++ TableKey.show BlockId key ++ ")"
  | .function name => "Function(" ++ Text.quote name ++ ")"

/-- An operation applied to operands. -/
structure Instruction where
  operation : Operation
  operands : List Operand
  deriving DecidableEq, Repr

namespace Instruction

/-- Puts a number into a slot. -/
def loadConstant (target : Slot) (value : Int32) : Instruction :=
  ⟨.loadConstant, [.slot target, .literal value]⟩

/-- Copies a slot into another. -/
def copy (target source : Slot) : Instruction :=
  ⟨.copyVariable, [.slot target, .slot source]⟩

/-- Computes an arithmetic operator. -/
def arithmetic (op : ArithmeticOp) (target left right : Slot) : Instruction :=
  ⟨.arithmetic op, [.slot target, .slot left, .slot right]⟩

/-- Computes a comparison. -/
def compare (op : CompareOp) (target left right : Slot) : Instruction :=
  ⟨.compare op, [.slot target, .slot left, .slot right]⟩

/-- Computes a unary operator in place. -/
def unary (op : UnaryOp) (target : Slot) : Instruction :=
  ⟨.unary op, [.slot target]⟩

/-- Changes a slot by one. -/
def step (op : StepOp) (target : Slot) : Instruction :=
  ⟨.step op, [.slot target]⟩

/-- Calls a function. -/
def call (target : Slot) (function : String) (arguments : List Slot) : Instruction :=
  ⟨.call, .slot target :: .function function :: arguments.map .slot⟩

/-- Returns from the function. -/
def ret (value : Option Slot) : Instruction :=
  ⟨.ret, value.toList.map .slot⟩

/-- Leaves the block for another one. -/
def jump (target : BlockId) : Instruction :=
  ⟨.jump, [.label target]⟩

end Instruction

end SmallC
