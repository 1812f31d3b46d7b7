import SmallC.Assembly.Line
import SmallC.Graph.Listing
import SmallC.Text.Terminal

/-!
# Assembly of graphs

Every slot keeps its own cell of the stack frame, and values pass through fixed registers on the way
from one cell to another. The first six arguments of a call go through registers; the others are
pushed from the last to the first, below padding that keeps the stack aligned to sixteen bytes.
-/

namespace SmallC.Assembly

/-- What the emitted assembly shows beside the code. -/
structure Options where
  /-- Whether each instruction of a graph is written as a comment above its code. -/
  comments : Bool
  /-- How the listings in comments are styled before their styles are removed. -/
  palette : Palette
  deriving DecidableEq, Repr

/-! ## Cells -/

/-- The cell of a slot. -/
def cellOf (graph : Graph) (slot : Slot) : Except Fault Cell := do
  let symbol ← graph.symbol slot
  return ⟨symbol.frameOffset⟩

/-- The cell of an operand that has to be a slot. -/
def cellOfOperand (graph : Graph) (operand : SmallC.Operand) : Except Fault Cell := do
  let slot ← operand.asSlot
  cellOf graph slot

/-! ## Frames -/

/-- The bytes that a function reserves below its frame base: the least multiple of sixteen that
holds its locals. -/
def frameSize (graph : Graph) : Nat :=
  (graph.localsSize + 15) / 16 * 16

/-- Sets up a frame of a number of bytes. -/
def prologue (bytes : Nat) : List Instr :=
  [.pushBase, .setBase] ++ if 0 < bytes then [.growStack bytes] else []

/-- Takes down the frame and returns. -/
def epilogue : List Instr :=
  [.resetStack, .popBase, .ret]

/-! ## Calls -/

/-- Pushes arguments in the order given. -/
def pushArguments (graph : Graph) : List SmallC.Operand → Except Fault (List Instr)
  | [] => .ok []
  | first :: others => do
      let cell ← cellOfOperand graph first
      let rest ← pushArguments graph others
      return .load .rax cell :: .push .rax :: rest

/-- Loads arguments into registers, as long as there are registers. -/
def loadArguments (graph : Graph) :
    List Register → List SmallC.Operand → Except Fault (List Instr)
  | register :: registers, first :: others => do
      let cell ← cellOfOperand graph first
      let rest ← loadArguments graph registers others
      return .load register cell :: rest
  | _, _ => .ok []

/-- The bytes of padding above a number of pushed arguments. -/
def padding (pushed : Nat) : Nat :=
  if pushed % 2 = 1 then 8 else 0

/-- The code of a call. -/
def emitCall (graph : Graph) (target : SmallC.Operand) (function : String)
    (arguments : List SmallC.Operand) : Except Fault (List Instr) := do
  let onStack := arguments.drop Frame.registerParameters
  let pad := padding onStack.length
  let bytes := 8 * onStack.length + pad
  let pushes ← pushArguments graph onStack.reverse
  let loads ← loadArguments graph Register.arguments arguments
  let result ← cellOfOperand graph target
  return (if 0 < pad then [.growStack pad] else []) ++ pushes ++ loads ++
    [.loadImmediate .rax 0, .call function] ++
    (if 0 < bytes then [.shrinkStack bytes] else []) ++ [.store result .rax]

/-! ## Instructions -/

/-- The code of an arithmetic operator on cells. -/
def arithmeticCode (op : ArithmeticOp) (target left right : Cell) : List Instr :=
  match op with
  | .add => [.load .rax left, .alu .add .rax right, .store target .rax]
  | .subtract => [.load .rax left, .alu .subtract .rax right, .store target .rax]
  | .multiply => [.load .rax left, .alu .multiply .rax right, .store target .rax]
  | .bitwiseAnd => [.load .rax left, .alu .and .rax right, .store target .rax]
  | .bitwiseOr => [.load .rax left, .alu .or .rax right, .store target .rax]
  | .bitwiseXor => [.load .rax left, .alu .xor .rax right, .store target .rax]
  | .divide => [.load .rax left, .signExtend, .divide right, .store target .rax]
  | .modulus => [.load .rax left, .signExtend, .divide right, .store target .rdx]
  | .shiftLeft =>
    [.load .rax left, .load .rcx right, .shift .left .rax .rcx, .store target .rax]
  | .shiftRight =>
    [.load .rax left, .load .rcx right, .shift .right .rax .rcx, .store target .rax]

/-- The code of a comparison of cells. -/
def compareCode (op : CompareOp) (target left right : Cell) : List Instr :=
  [.load .rax left, .compare .rax right, .set op .rax, .zeroExtend .rax, .store target .rax]

/-- The code of a unary operator on a cell. -/
def unaryCode (op : UnaryOp) (target : Cell) : List Instr :=
  match op with
  | .negate => [.negate target]
  | .bitwiseNot => [.invert target]
  | .logicalNot =>
    [.compareZero target, .set .equal .rax, .zeroExtend .rax, .store target .rax]

/-- The code of a step of a cell. -/
def stepCode (op : StepOp) (target : Cell) : List Instr :=
  match op with
  | .increment => [.increment target]
  | .decrement => [.decrement target]

/-- The code of an instruction. -/
def emitInstruction (graph : Graph) (instruction : Instruction) : Except Fault (List Instr) :=
  match instruction.operation, instruction.operands with
  | .loadConstant, [target, .literal value] => do
      let cell ← cellOfOperand graph target
      return [.storeImmediate cell value]
  | .loadConstant, [_, _] => .error .literalExpected
  | .copyVariable, [target, source] => do
      let sourceCell ← cellOfOperand graph source
      let targetCell ← cellOfOperand graph target
      return [.load .rax sourceCell, .store targetCell .rax]
  | .arithmetic op, [target, left, right] => do
      let leftCell ← cellOfOperand graph left
      let rightCell ← cellOfOperand graph right
      let targetCell ← cellOfOperand graph target
      return arithmeticCode op targetCell leftCell rightCell
  | .compare op, [target, left, right] => do
      let leftCell ← cellOfOperand graph left
      let rightCell ← cellOfOperand graph right
      let targetCell ← cellOfOperand graph target
      return compareCode op targetCell leftCell rightCell
  | .unary op, [target] => do
      let cell ← cellOfOperand graph target
      return unaryCode op cell
  | .step op, [target] => do
      let cell ← cellOfOperand graph target
      return stepCode op cell
  | .call, target :: .function function :: arguments =>
    emitCall graph target function arguments
  | .call, _ :: _ :: _ => .error .functionExpected
  | .ret, [] => .ok epilogue
  | .ret, [value] => do
      let cell ← cellOfOperand graph value
      return .load .rax cell :: epilogue
  | .jump, [.label target] => do
      let block ← graph.block target
      return [.jump block.label]
  | .jump, [_] => .error .labelExpected
  | operation, operands => .error (.operandCount operation operands.length)

/-- The code after the instructions of a block. -/
def emitTerminator (graph : Graph) : Terminator → Except Fault (List Instr)
  | .ret => .ok epilogue
  | .jump target => do
      let block ← graph.block target
      return [.jump block.label]
  | .branch test onTrue onFalse => do
      let cell ← cellOf graph test
      let falseBlock ← graph.block onFalse
      let trueBlock ← graph.block onTrue
      return [.compareZero cell, .jumpIfEqual falseBlock.label, .jump trueBlock.label]

/-! ## Lines

The lines depend on how styles are taken out of a text.  Unless told otherwise, this is done as a
terminal reads them. -/

/-- A comment without styles, if comments are wanted. -/
def commentLine (options : Options) (text : String)
    (strip : String → String := Text.stripEscapes Text.isPrinting) : List Line :=
  if options.comments then [.comment (strip text)] else []

/-- The lines of instructions, each under its comment. The listing of an instruction is made first,
whether it is shown or not. -/
def emitInstructions (options : Options) (graph : Graph) (instructions : List Instruction)
    (strip : String → String := Text.stripEscapes Text.isPrinting) : Except Fault (List Line) :=
  match instructions with
  | [] => .ok []
  | first :: others => do
      let listing ← graph.showInstruction options.palette first
      let code ← emitInstruction graph first
      let rest ← emitInstructions options graph others strip
      return commentLine options listing strip ++ code.map .instr ++ rest

/-- The lines of blocks. -/
def emitBlocks (options : Options) (graph : Graph) (ids : List BlockId)
    (strip : String → String := Text.stripEscapes Text.isPrinting) : Except Fault (List Line) :=
  match ids with
  | [] => .ok []
  | first :: others => do
      let block ← graph.block first
      let code ← emitInstructions options graph block.instructions strip
      let terminator ← block.terminator
      let exit ← emitTerminator graph terminator
      let rest ← emitBlocks options graph others strip
      return .label block.label :: code ++ exit.map .instr ++ rest

/-- The lines that announce a function and mark its start. -/
def functionHeader (name : String) : List Line :=
  [.verbatim (".globl " ++ name), .verbatim (".type " ++ name ++ ", @function"), .label name]

/-- Stores the parameters that come in registers into their cells. -/
def spillParameters (graph : Graph) : List Register → List Slot → Except Fault (List Instr)
  | register :: registers, slot :: slots => do
      let cell ← cellOf graph slot
      let rest ← spillParameters graph registers slots
      return .store cell register :: rest
  | _, _ => .ok []

/-- The lines of a function. -/
def emitFunction (options : Options) (graph : Graph)
    (strip : String → String := Text.stripEscapes Text.isPrinting) :
    Except Fault (List Line) := do
  let spills ← spillParameters graph Register.arguments graph.parameters
  let blocks ← emitBlocks options graph graph.order strip
  return functionHeader graph.name ++ (prologue (frameSize graph) ++ spills).map .instr ++ blocks

/-- The lines of functions, each followed by an empty line. -/
def emitFunctions (options : Options) (graphs : List Graph)
    (strip : String → String := Text.stripEscapes Text.isPrinting) : Except Fault (List Line) :=
  match graphs with
  | [] => .ok []
  | first :: others => do
      let lines ← emitFunction options first strip
      let rest ← emitFunctions options others strip
      return lines ++ .blank :: rest

/-- The lines before the functions. -/
def fileHeader : List Line :=
  [.verbatim ".intel_syntax noprefix", .verbatim ".text", .blank]

/-- The lines after the functions: the stack holds no code. -/
def fileFooter : List Line :=
  [.verbatim ".section .note.GNU-stack,\"\",@progbits"]

/-- The assembly of a program. Without functions it has one more empty line. -/
def emitProgram (options : Options) (graphs : List Graph)
    (strip : String → String := Text.stripEscapes Text.isPrinting) :
    Except Fault (List Line) := do
  let functions ← emitFunctions options graphs strip
  let body := if functions.isEmpty then [.blank] else functions
  return fileHeader ++ body ++ fileFooter

end SmallC.Assembly
