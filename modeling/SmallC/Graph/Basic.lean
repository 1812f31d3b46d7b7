import SmallC.Graph.Fault
import SmallC.Scope

/-!
# Control flow graphs

The graph of a function: basic blocks that link to each other by key, in the order in which they are
emitted, and the symbols that their instructions refer to. Every symbol has its own place in the
stack frame: the first six parameters and all variables and temporaries go downwards from the frame
base in steps of four bytes, the other parameters stand above it where the caller put them.
-/

namespace SmallC

/-! ## Symbols and blocks -/

/-- A symbol and its place, as a byte offset from the frame base. -/
structure GraphSymbol where
  name : String
  type : TypeName
  frameOffset : Int
  deriving DecidableEq, Repr

/-- Instructions that run in order, and the links to the blocks after them. -/
structure BasicBlock where
  label : String
  instructions : List Instruction
  exitTrue : Option BlockId
  exitFalse : Option BlockId
  /-- The slot that chooses between two exits. -/
  test : Option Slot
  deriving DecidableEq, Repr

/-- How control leaves a block. -/
inductive Terminator where
  /-- The function returns. -/
  | ret
  | jump (target : BlockId)
  | branch (test : Slot) (onTrue onFalse : BlockId)
  deriving DecidableEq, Repr

namespace BasicBlock

/-- A block without instructions and links. -/
def new (label : String) : BasicBlock :=
  ⟨label, [], none, none, none⟩

/-- How control leaves a block, from its links: without links it returns, one link is a jump, and
two links need a test. -/
def terminator (block : BasicBlock) : Except Fault Terminator :=
  match block.exitTrue, block.exitFalse, block.test with
  | none, none, _ => .ok .ret
  | some target, none, _ => .ok (.jump target)
  | some onTrue, some onFalse, some test => .ok (.branch test onTrue onFalse)
  | _, _, _ => .error (.malformedExits block.label)

end BasicBlock

/-! ## Frames -/

namespace Frame

/-- The offset of the first local, below the frame base. -/
def firstLocal : Int :=
  -4

/-- The offset of the first parameter on the stack, above the saved frame base and the return
address. -/
def firstStackParameter : Int :=
  16

/-- The number of parameters that are passed in registers. -/
def registerParameters : Nat :=
  6

/-- Whether an offset fits into 32 bits. -/
def fits (offset : Int) : Bool :=
  -0x80000000 ≤ offset && offset < 0x80000000

/-- An offset that has to fit into 32 bits. -/
def checked (offset : Int) : Except Fault Int :=
  if fits offset then .ok offset else .error .frameOverflow

/-- The offset of a parameter that is passed on the stack. Its number counts from the first such
parameter and is kept to 32 bits. -/
def stackParameter (number : Nat) : Except Fault Int := do
  let distance ← checked (8 * Int.bmod number 0x100000000)
  checked (firstStackParameter + distance)

end Frame

/-! ## Graphs -/

/-- The graph of a function. -/
structure Graph where
  name : String
  /-- The block that new instructions go to. -/
  current : BlockId
  blocks : Table BlockId BasicBlock
  /-- The blocks that are emitted, in order. -/
  order : List BlockId
  symbols : Table Slot GraphSymbol
  scopes : Scopes Slot
  parameters : List Slot
  nextOffset : Int
  nextTemporary : Nat
  deriving Repr

namespace Graph

/-! ### Blocks -/

/-- The label of a block: unique in its function by its number. -/
def blockLabel (function : String) (number : Nat) (tag : String) : String :=
  ".L" ++ function ++ "_" ++ toString number ++ "_" ++ tag

/-- Adds a block that is not yet emitted, and gives its key. -/
def createBlock (tag : String) (graph : Graph) : BlockId × Graph :=
  let block := BasicBlock.new (blockLabel graph.name graph.blocks.size tag)
  (graph.blocks.nextKey, { graph with blocks := graph.blocks.push block })

/-- The graph of a function without code: one empty block and an empty scope for parameters. -/
def new (name : String) : Graph :=
  { name := name
    current := ⟨0⟩
    blocks := ⟨[BasicBlock.new (blockLabel name 0 "entry")]⟩
    order := [⟨0⟩]
    symbols := .empty
    scopes := .single []
    parameters := []
    nextOffset := Frame.firstLocal
    nextTemporary := 0 }

/-- The block under a key. -/
def block (graph : Graph) (id : BlockId) : Except Fault BasicBlock :=
  Fault.ofTable (graph.blocks.get id)

/-- Changes the block under a key. -/
def modifyBlock (id : BlockId) (change : BasicBlock → BasicBlock) (graph : Graph) :
    Except Fault Graph := do
  let blocks ← Fault.ofTable (graph.blocks.modify id change)
  return { graph with blocks := blocks }

/-- Puts a block at the end of the emitted ones. No block is emitted twice. -/
def appendBlock (id : BlockId) (graph : Graph) : Except Fault Graph :=
  if graph.order.contains id then do
    let block ← graph.block id
    throw (.appendedTwice block.label)
  else
    .ok { graph with order := graph.order ++ [id] }

/-- The block that is emitted first. -/
def firstBlock? (graph : Graph) : Option BlockId :=
  graph.order.head?

/-- Adds an instruction to a block. -/
def addTo (id : BlockId) (instruction : Instruction) : Graph → Except Fault Graph :=
  modifyBlock id fun block =>
    { block with instructions := block.instructions ++ [instruction] }

/-- Adds an instruction to the current block. -/
def add (instruction : Instruction) (graph : Graph) : Except Fault Graph :=
  graph.addTo graph.current instruction

/-- Adds an operation with operands to a block. The block is looked up first. -/
def appendInstruction (id : BlockId) (operation : Operation) (operands : List Operand)
    (graph : Graph) : Except Fault Graph := do
  let _ ← graph.block id
  let instruction ← Instruction.make operation operands
  graph.addTo id instruction

/-- Lets a block go on to another one. -/
def setJump (id target : BlockId) : Graph → Except Fault Graph :=
  modifyBlock id fun block =>
    { block with exitTrue := some target, exitFalse := none, test := none }

/-- Lets a block go on to one of two blocks, by whether a slot is zero. -/
def setBranch (id : BlockId) (test : Slot) (onTrue onFalse : BlockId) :
    Graph → Except Fault Graph :=
  modifyBlock id fun block =>
    { block with exitTrue := some onTrue, exitFalse := some onFalse, test := some test }

/-- The emitted blocks, in order. -/
def orderedBlocks (graph : Graph) : Except Fault (List (BlockId × BasicBlock)) :=
  graph.order.mapM fun id => do
    let block ← graph.block id
    return (id, block)

/-! ### Scopes and symbols -/

/-- The symbol under a key. -/
def symbol (graph : Graph) (slot : Slot) : Except Fault GraphSymbol :=
  Fault.ofTable (graph.symbols.get slot)

/-- The symbol that a name stands for. -/
def lookup? (graph : Graph) (name : String) : Option Slot :=
  graph.scopes.lookup? name

/-- Opens a scope. -/
def enterScope (graph : Graph) : Graph :=
  { graph with scopes := graph.scopes.enter }

/-- Closes a scope. The scope of the parameters stays open. -/
def leaveScope (graph : Graph) : Except Fault Graph :=
  match graph.scopes.leave? with
  | none => .error (.poppedParameters graph.name)
  | some outer => .ok { graph with scopes := outer }

/-- A declaration that was tried: the slot of its symbol or why it is refused, and the graph
afterwards. A refused declaration can leave its symbol behind. -/
structure Declaration where
  outcome : Except Fault Slot
  graph : Graph

namespace Declaration

/-- A declaration that is refused, leaving a graph behind. -/
def refused (fault : Fault) (graph : Graph) : Declaration :=
  ⟨.error fault, graph⟩

/-- The slot and the graph of a declaration that is not refused. -/
def accepted (declaration : Declaration) : Except Fault (Slot × Graph) := do
  let slot ← declaration.outcome
  return (slot, declaration.graph)

/-- Goes on with the slot and the graph of a declaration that is not refused. -/
def andThen (declaration : Declaration) (next : Slot → Graph → Except Fault Graph) :
    Declaration :=
  match declaration.outcome with
  | .error _ => declaration
  | .ok slot =>
    match next slot declaration.graph with
    | .ok graph => ⟨.ok slot, graph⟩
    | .error fault => .refused fault declaration.graph

end Declaration

/-- Adds a symbol at an offset and declares its name in the innermost scope. The name of a parameter
is found to be taken only when the symbol is already there. -/
def insertSymbol (name : String) (type : TypeName) (offset : Int) (graph : Graph) :
    Declaration :=
  if type = .void then
    .refused (.voidVariable name) graph
  else if graph.scopes.declaresHere name then
    .refused (.declaredTwice name) graph
  else
    let slot := graph.symbols.nextKey
    let inserted :=
      { graph with
        symbols := graph.symbols.push ⟨name, type, offset⟩
        scopes := graph.scopes.declare name slot }
    if graph.scopes.hidesParameter name then
      .refused (.hidesParameter name graph.name) inserted
    else
      ⟨.ok slot, inserted⟩

/-- Takes the next place of the frame for a type. -/
def reserve (type : TypeName) (graph : Graph) : Except Fault Graph := do
  let size ← type.size
  let next ← Frame.checked (graph.nextOffset - size)
  return { graph with nextOffset := next }

/-- Declares a variable at the next place of the frame. -/
def declareVariable (name : String) (type : TypeName) (graph : Graph) : Declaration :=
  (graph.insertSymbol name type graph.nextOffset).andThen fun _ inserted => inserted.reserve type

/-- Declares a parameter that is passed in a register and kept in the frame. -/
def declareRegisterParameter (name : String) (type : TypeName) (position : Nat) (graph : Graph) :
    Declaration :=
  match type.size with
  | .error fault => .refused fault graph
  | .ok size =>
    let offset := Frame.firstLocal - position * size
    if offset = graph.nextOffset then
      graph.declareVariable name type
    else
      .refused (.parameterOrder position graph.name offset graph.nextOffset) graph

/-- Adds a symbol at an offset that may not exist. -/
def insertSymbolAt (offset : Except Fault Int) (name : String) (type : TypeName) (graph : Graph) :
    Declaration :=
  match offset with
  | .error fault => .refused fault graph
  | .ok offset => graph.insertSymbol name type offset

/-- Declares a parameter that is passed on the stack. -/
def declareStackParameter (name : String) (type : TypeName) (position : Nat) (graph : Graph) :
    Declaration :=
  graph.insertSymbolAt (Frame.stackParameter (position - Frame.registerParameters)) name type

/-- Declares the parameter at a position. Parameters come before any other scope is open, and those
in registers come in order. -/
def declareParameter (name : String) (type : TypeName) (position : Nat) (graph : Graph) :
    Declaration :=
  if graph.scopes.depth = 1 then
    let declared :=
      if position < Frame.registerParameters then
        graph.declareRegisterParameter name type position
      else
        graph.declareStackParameter name type position
    declared.andThen fun slot after =>
      .ok { after with parameters := after.parameters ++ [slot] }
  else
    .refused (.notInParameterScope graph.scopes.depth) graph

/-- The name of a temporary, which no variable of a program can have. -/
def temporaryName (number : Nat) : String :=
  "!t" ++ toString number

/-- Declares a new temporary in the innermost scope. -/
def newTemporary (type : TypeName) (graph : Graph) : Declaration :=
  declareVariable (temporaryName graph.nextTemporary) type
    { graph with nextTemporary := graph.nextTemporary + 1 }

/-- The bytes below the frame base that hold variables, temporaries and register parameters. -/
def localsSize (graph : Graph) : Nat :=
  (Frame.firstLocal - graph.nextOffset).toNat

end Graph

end SmallC
