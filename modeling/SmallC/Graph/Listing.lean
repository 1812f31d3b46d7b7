import SmallC.Graph.Basic
import SmallC.Text.Style

/-!
# Listings of graphs

A graph as text: the function with its parameters, its symbols with their places in the frame, and
its blocks with their instructions and exits. Slots are shown by the names of their symbols.
-/

namespace SmallC

namespace Graph

/-- A slot by the name of its symbol. -/
def showSlot (palette : Palette) (graph : Graph) (slot : Slot) : Except Fault String := do
  let symbol ← graph.symbol slot
  return palette.paint .yellow symbol.name

/-- A block by its label. -/
def showBlock (palette : Palette) (graph : Graph) (id : BlockId) : Except Fault String := do
  let block ← graph.block id
  return palette.paint .blue block.label

/-- An operand of an instruction. -/
def showOperand (palette : Palette) (graph : Graph) : Operand → Except Fault String
  | .slot slot => graph.showSlot palette slot
  | .literal value => .ok (palette.paint .magenta (toString value.toInt))
  | .label block => graph.showBlock palette block
  | .function name => .ok (palette.paint .blue name)

/-- The operands of an instruction, each found in the graph. -/
def showOperands (palette : Palette) (graph : Graph) : List Operand → Except Fault (List String)
  | [] => .ok []
  | first :: others => do
      let text ← graph.showOperand palette first
      let texts ← showOperands palette graph others
      return text :: texts

/-- An instruction: its operation, and its operands unless their text is empty. -/
def showInstruction (palette : Palette) (graph : Graph) (instruction : Instruction) :
    Except Fault String := do
  let texts ← graph.showOperands palette instruction.operands
  let operands := ", ".intercalate texts
  let operation := palette.paint .cyan instruction.operation.mnemonic
  return if operands.isEmpty then operation else operation ++ " " ++ operands

/-- How control leaves a block. -/
def showTerminator (palette : Palette) (graph : Graph) : Terminator → Except Fault String
  | .ret => .ok (palette.paint .grey "-> exit")
  | .jump target => do
      let target ← graph.showBlock palette target
      return palette.paint .grey "->" ++ " " ++ target
  | .branch test onTrue onFalse => do
      let test ← graph.showSlot palette test
      let onTrue ← graph.showBlock palette onTrue
      let onFalse ← graph.showBlock palette onFalse
      return palette.paint .grey "->" ++ " " ++ test ++ " " ++ onTrue ++ " " ++
        palette.paint .grey "else" ++ " " ++ onFalse

/-- A line inside a listing. -/
def indented (text : String) : String :=
  "    " ++ text ++ "\n"

/-- An offset with its sign. -/
def showOffset (offset : Int) : String :=
  if 0 ≤ offset then "+" ++ toString offset else toString offset

/-- A symbol with its type and place. -/
def showSymbol (palette : Palette) (symbol : GraphSymbol) : String :=
  indented (palette.paint .grey "slot" ++ " " ++ palette.paint .yellow symbol.name ++ " " ++
    palette.paint .green symbol.type.spelling ++ " " ++
    palette.paint .grey ("[" ++ showOffset symbol.frameOffset ++ "]"))

/-- The instructions of a block, one on a line. -/
def showInstructions (palette : Palette) (graph : Graph) :
    List Instruction → Except Fault String
  | [] => .ok ""
  | first :: others => do
      let line ← graph.showInstruction palette first
      let lines ← showInstructions palette graph others
      return indented line ++ lines

/-- Blocks with their labels, instructions and exits. -/
def showBlocks (palette : Palette) (graph : Graph) : List BlockId → Except Fault String
  | [] => .ok ""
  | first :: others => do
      let block ← graph.block first
      let instructions ← graph.showInstructions palette block.instructions
      let terminator ← block.terminator
      let exit ← graph.showTerminator palette terminator
      let blocks ← showBlocks palette graph others
      return palette.paint .brightRed (block.label ++ ":") ++ "\n" ++ instructions ++
        indented exit ++ blocks

/-- The listing of a graph. -/
def listing (palette : Palette) (graph : Graph) : Except Fault String := do
  let parameters ← graph.showOperands palette (graph.parameters.map .slot)
  let blocks ← graph.showBlocks palette graph.order
  return palette.paint .magenta "fn" ++ " " ++ palette.paint .blue graph.name ++
    palette.paint .white "(" ++ ", ".intercalate parameters ++ palette.paint .white ") \x7b" ++
    "\n" ++ String.join (graph.symbols.entries.map (showSymbol palette)) ++ blocks ++
    palette.paint .white "\x7d" ++ "\n"

/-- The listings of graphs, in order. -/
def listings (palette : Palette) : List Graph → Except Fault (List String)
  | [] => .ok []
  | first :: others => do
      let text ← first.listing palette
      let texts ← listings palette others
      return text :: texts

/-- The listing of all functions of a program, divided by empty lines. -/
def listingOfAll (palette : Palette) (graphs : List Graph) : Except Fault String := do
  let texts ← listings palette graphs
  return "\n".intercalate texts

end Graph

end SmallC
