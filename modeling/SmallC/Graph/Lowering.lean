import SmallC.Graph.Basic
import SmallC.Graph.Literal

/-!
# Graphs of functions

Every expression is evaluated into a new temporary, except for variables, which are used where they
are. Control flow becomes links between blocks. Lowering a statement or an expression leaves the
current block without links, so that what comes after can be linked to it.
-/

namespace SmallC.Lowering

/-! ## Steps -/

/-- Where the jumps out of a loop lead. -/
structure LoopTargets where
  onContinue : BlockId
  onBreak : BlockId
  deriving DecidableEq, Repr

/-- Marks a function as one that is found when the program is linked. -/
def externalSuffix : String :=
  "@PLT"

/-- The target of a call, given which functions the program defines. -/
def callTarget (defined : String → Bool) (name : String) : String :=
  if defined name then name else name ++ externalSuffix

/-- Declares a new temporary. -/
def temporary (graph : Graph) : Except Fault (Slot × Graph) :=
  (graph.newTemporary .int).accepted

/-- The slot that a name stands for. -/
def resolve (name : String) (graph : Graph) : Except Fault Slot :=
  match graph.lookup? name with
  | some slot => .ok slot
  | none => .error (.undeclared name graph.name)

/-- Appends a block and makes it the current one. -/
def enterBlock (id : BlockId) (graph : Graph) : Except Fault Graph := do
  let graph ← graph.appendBlock id
  return { graph with current := id }

/-- Lets the current block go on to another one. -/
def jumpTo (target : BlockId) (graph : Graph) : Except Fault Graph :=
  graph.setJump graph.current target

/-- Lets the current block go on to one of two blocks. -/
def branchTo (test : Slot) (onTrue onFalse : BlockId) (graph : Graph) : Except Fault Graph :=
  graph.setBranch graph.current test onTrue onFalse

/-- Puts a number into a new temporary. -/
def constant (value : Int32) (graph : Graph) : Except Fault (Slot × Graph) := do
  let (target, graph) ← temporary graph
  let graph ← graph.add (.loadConstant target value)
  return (target, graph)

/-! ## Logical operators -/

/-- The blocks of a logical operator. -/
structure LogicalBlocks where
  right : BlockId
  whenTrue : BlockId
  out : BlockId

/-- Creates the blocks of a logical operator. -/
def createLogicalBlocks (op : LogicalOp) (graph : Graph) : LogicalBlocks × Graph :=
  let tag := match op with
    | .and => "and"
    | .or => "or"
  let (right, graph) := graph.createBlock (tag ++ "_rhs")
  let (whenTrue, graph) := graph.createBlock (tag ++ "_true")
  let (out, graph) := graph.createBlock (tag ++ "_out")
  (⟨right, whenTrue, out⟩, graph)

/-- Branches on the left operand of a logical operator and enters the block of the right one. -/
def splitLogical (op : LogicalOp) (left : Slot) (graph : Graph) :
    Except Fault (LogicalBlocks × Graph) := do
  let (blocks, graph) := createLogicalBlocks op graph
  let graph ← match op with
    | .and => branchTo left blocks.right blocks.out graph
    | .or => branchTo left blocks.whenTrue blocks.right graph
  let graph ← enterBlock blocks.right graph
  return (blocks, graph)

/-- Branches on the right operand of a logical operator and brings all paths together. The result,
which is zero so far, becomes one where the whole expression is true. -/
def joinLogical (blocks : LogicalBlocks) (result right : Slot) (graph : Graph) :
    Except Fault Graph := do
  let graph ← branchTo right blocks.whenTrue blocks.out graph
  let graph ← enterBlock blocks.whenTrue graph
  let graph ← graph.add (.loadConstant result 1)
  let graph ← jumpTo blocks.out graph
  enterBlock blocks.out graph

/-! ## Expressions -/

/-- Adds the instructions of a step operator and gives the slot of its value: that of the variable
before or after the step. -/
def lowerStep (op : StepOp) (fixity : Fixity) (operand : Slot) (graph : Graph) :
    Except Fault (Slot × Graph) := do
  let (target, graph) ← temporary graph
  let graph ← match fixity with
    | .before => do
        let graph ← graph.add (.step op operand)
        graph.add (.copy target operand)
    | .after => do
        let graph ← graph.add (.copy target operand)
        graph.add (.step op operand)
  return (target, graph)

/-- The instruction that stores a value into a variable, plain or with an operator. -/
def storeInstruction (op : Option ArithmeticOp) (target value : Slot) : Instruction :=
  match op with
  | none => .copy target value
  | some op => .arithmetic op target target value

mutual

/-- Lowers an expression and gives the slot of its value. -/
def lowerExpr (defined : String → Bool) : Expr → Graph → Except Fault (Slot × Graph)
  | .literal literal, graph => do
      let value ← literal.value
      constant value graph
  | .identifier name, graph => do
      let slot ← resolve name.name graph
      return (slot, graph)
  | .group _ inner, graph => lowerExpr defined inner graph
  | .call _ callee arguments, graph => do
      let (target, graph) ← temporary graph
      let (slots, graph) ← lowerArguments defined arguments graph
      let graph ← graph.add (.call target (callTarget defined callee.name) slots)
      return (target, graph)
  | .binary _ (.arithmetic op) _ left right, graph => do
      let (target, graph) ← temporary graph
      let (leftSlot, graph) ← lowerExpr defined left graph
      let (rightSlot, graph) ← lowerExpr defined right graph
      let graph ← graph.add (.arithmetic op target leftSlot rightSlot)
      return (target, graph)
  | .binary _ (.compare op) _ left right, graph => do
      let (target, graph) ← temporary graph
      let (leftSlot, graph) ← lowerExpr defined left graph
      let (rightSlot, graph) ← lowerExpr defined right graph
      let graph ← graph.add (.compare op target leftSlot rightSlot)
      return (target, graph)
  | .binary _ (.logical op) _ left right, graph => do
      let (result, graph) ← constant 0 graph
      let (leftSlot, graph) ← lowerExpr defined left graph
      let (blocks, graph) ← splitLogical op leftSlot graph
      let (rightSlot, graph) ← lowerExpr defined right graph
      let graph ← joinLogical blocks result rightSlot graph
      return (result, graph)
  | .unary _ op _ operand, graph => do
      let (value, graph) ← lowerExpr defined operand graph
      let (target, graph) ← temporary graph
      let graph ← graph.add (.copy target value)
      let graph ← graph.add (.unary op target)
      return (target, graph)
  | .step _ op fixity target, graph => do
      let slot ← resolve target.name graph
      lowerStep op fixity slot graph
  | .assign _ target op value, graph => do
      let (valueSlot, graph) ← lowerExpr defined value graph
      let slot ← resolve target.name graph
      let graph ← graph.add (storeInstruction (op.map Prod.fst) slot valueSlot)
      return (slot, graph)

/-- Lowers the arguments of a call from left to right. -/
def lowerArguments (defined : String → Bool) :
    List Expr → Graph → Except Fault (List Slot × Graph)
  | [], graph => .ok ([], graph)
  | first :: others, graph => do
      let (slot, graph) ← lowerExpr defined first graph
      let (slots, graph) ← lowerArguments defined others graph
      return (slot :: slots, graph)

end

/-- Lowers an expression for what it does and not for its value. -/
def lowerEffect (defined : String → Bool) (value : Expr) (graph : Graph) :
    Except Fault Graph := do
  let (_, graph) ← lowerExpr defined value graph
  return graph

/-! ## Declarations -/

/-- Lowers one variable of a declaration. The variable is in scope in its own initial value. -/
def lowerDeclarator (defined : String → Bool) (declarator : Declarator) (graph : Graph) :
    Except Fault Graph := do
  let (slot, graph) ← (graph.declareVariable declarator.name.name .int).accepted
  match declarator.initializer with
  | none => return graph
  | some value =>
    let (valueSlot, graph) ← lowerExpr defined value graph
    graph.add (.copy slot valueSlot)

/-- Lowers the variables of a declaration. -/
def lowerDeclarators (defined : String → Bool) : List Declarator → Graph → Except Fault Graph
  | [], graph => .ok graph
  | first :: others, graph => do
      let graph ← lowerDeclarator defined first graph
      lowerDeclarators defined others graph

/-! ## Loops -/

/-- The blocks of a `for` statement. The block after the body exists when there is an expression to
evaluate there. -/
structure ForBlocks where
  test : BlockId
  body : BlockId
  after : Option (BlockId × Expr)
  out : BlockId

/-- Creates the blocks of a `for` statement. -/
def createForBlocks (after : Option Expr) (graph : Graph) : ForBlocks × Graph :=
  let (test, graph) := graph.createBlock "for_test"
  let (body, graph) := graph.createBlock "for_body"
  match after with
  | none =>
    let (out, graph) := graph.createBlock "for_out"
    (⟨test, body, none, out⟩, graph)
  | some value =>
    let (afterBlock, graph) := graph.createBlock "for_after"
    let (out, graph) := graph.createBlock "for_out"
    (⟨test, body, some (afterBlock, value), out⟩, graph)

/-- Where the jumps out of the body of a `for` statement lead. -/
def ForBlocks.targets (blocks : ForBlocks) : LoopTargets :=
  match blocks.after with
  | none => ⟨blocks.test, blocks.out⟩
  | some (after, _) => ⟨after, blocks.out⟩

/-- Lowers what a `for` statement does before its loop. -/
def lowerForInitializer (defined : String → Bool) :
    Option ForInitializer → Graph → Except Fault Graph
  | none, graph => .ok graph
  | some (.declaration declarators), graph => lowerDeclarators defined declarators graph
  | some (.expression value), graph => lowerEffect defined value graph

/-- Lowers the test of a `for` statement. Without a test the body always runs. -/
def lowerForTest (defined : String → Bool) (blocks : ForBlocks) :
    Option Expr → Graph → Except Fault Graph
  | none, graph => jumpTo blocks.body graph
  | some value, graph => do
      let (test, graph) ← lowerExpr defined value graph
      branchTo test blocks.body blocks.out graph

/-- Lowers what a `for` statement does after its body. -/
def lowerForAfter (defined : String → Bool) (blocks : ForBlocks) (graph : Graph) :
    Except Fault Graph :=
  match blocks.after with
  | none => .ok graph
  | some (after, value) => do
      let graph ← jumpTo after graph
      let graph ← enterBlock after graph
      lowerEffect defined value graph

/-- The targets of the loop around a jump out of a loop. -/
def innermostLoop (exit : LoopExit) : Option LoopTargets → Except Fault LoopTargets
  | some targets => .ok targets
  | none => .error (.outsideLoop exit)

/-! ## Statements -/

mutual

/-- Lowers a statement inside the loop with the given targets, if there is one. -/
def lowerStmt (defined : String → Bool) :
    Option LoopTargets → Stmt → Graph → Except Fault Graph
  | _, .declaration _ declarators, graph => lowerDeclarators defined declarators graph
  | _, .expression _ value, graph => lowerEffect defined value graph
  | loop, .block _ statements, graph => do
      let graph ← lowerStmts defined loop statements graph.enterScope
      graph.leaveScope
  | loop, .ifThen _ condition positive, graph => do
      let (test, graph) ← lowerExpr defined condition graph
      let (whenTrue, graph) := graph.createBlock "if_true"
      let (out, graph) := graph.createBlock "if_out"
      let graph ← branchTo test whenTrue out graph
      let graph ← enterBlock whenTrue graph
      let graph ← lowerStmt defined loop positive graph
      let graph ← jumpTo out graph
      enterBlock out graph
  | loop, .ifElse _ condition positive negative, graph => do
      let (test, graph) ← lowerExpr defined condition graph
      let (whenTrue, graph) := graph.createBlock "if_true"
      let (whenFalse, graph) := graph.createBlock "if_false"
      let (out, graph) := graph.createBlock "if_out"
      let graph ← branchTo test whenTrue whenFalse graph
      let graph ← enterBlock whenTrue graph
      let graph ← lowerStmt defined loop positive graph
      let graph ← jumpTo out graph
      let graph ← enterBlock whenFalse graph
      let graph ← lowerStmt defined loop negative graph
      let graph ← jumpTo out graph
      enterBlock out graph
  | _, .whileLoop _ condition body, graph => do
      let (testBlock, graph) := graph.createBlock "while_test"
      let (bodyBlock, graph) := graph.createBlock "while_body"
      let (out, graph) := graph.createBlock "while_out"
      let graph ← jumpTo testBlock graph
      let graph ← enterBlock testBlock graph
      let (test, graph) ← lowerExpr defined condition graph
      let graph ← branchTo test bodyBlock out graph
      let graph ← enterBlock bodyBlock graph
      let graph ← lowerStmt defined (some ⟨testBlock, out⟩) body graph
      let graph ← jumpTo testBlock graph
      enterBlock out graph
  | _, .doWhile _ body condition, graph => do
      let (bodyBlock, graph) := graph.createBlock "do_body"
      let (testBlock, graph) := graph.createBlock "do_test"
      let (out, graph) := graph.createBlock "do_out"
      let graph ← jumpTo bodyBlock graph
      let graph ← enterBlock bodyBlock graph
      let graph ← lowerStmt defined (some ⟨testBlock, out⟩) body graph
      let graph ← jumpTo testBlock graph
      let graph ← enterBlock testBlock graph
      let (test, graph) ← lowerExpr defined condition graph
      let graph ← branchTo test bodyBlock out graph
      enterBlock out graph
  | _, .forLoop _ initializer test after body, graph => do
      let graph ← lowerForInitializer defined initializer graph.enterScope
      let (blocks, graph) := createForBlocks after graph
      let graph ← jumpTo blocks.test graph
      let graph ← enterBlock blocks.test graph
      let graph ← lowerForTest defined blocks test graph
      let graph ← enterBlock blocks.body graph
      let graph ← lowerStmt defined (some blocks.targets) body graph
      let graph ← lowerForAfter defined blocks graph
      let graph ← jumpTo blocks.test graph
      let graph ← enterBlock blocks.out graph
      graph.leaveScope
  | loop, .breakLoop _, graph => do
      let targets ← innermostLoop .breakLoop loop
      graph.add (.jump targets.onBreak)
  | loop, .continueLoop _, graph => do
      let targets ← innermostLoop .continueLoop loop
      graph.add (.jump targets.onContinue)
  | _, .returnValue _ none, graph => graph.add (.ret none)
  | _, .returnValue _ (some value), graph => do
      let (slot, graph) ← lowerExpr defined value graph
      graph.add (.ret (some slot))
  | _, .empty _, graph => .ok graph

/-- Lowers statements in order. -/
def lowerStmts (defined : String → Bool) :
    Option LoopTargets → List Stmt → Graph → Except Fault Graph
  | _, [], graph => .ok graph
  | loop, first :: others, graph => do
      let graph ← lowerStmt defined loop first graph
      lowerStmts defined loop others graph

end

/-! ## Functions -/

/-- Declares parameters from a position on. -/
def declareParameters (position : Nat) : List Parameter → Graph → Except Fault Graph
  | [], graph => .ok graph
  | first :: others, graph => do
      let (_, graph) ← (graph.declareParameter first.name.name .int position).accepted
      declareParameters (position + 1) others graph

/-- The graph of a function. Its body has a scope right above that of the parameters. -/
def lowerFunction (defined : String → Bool) (function : FunctionDef) : Except Fault Graph := do
  let graph ← declareParameters 0 function.parameters (.new function.name.name)
  let graph ← lowerStmts defined none function.body.statements graph.enterScope
  graph.leaveScope

/-- The graphs of functions, in order. -/
def lowerFunctions (defined : String → Bool) : List FunctionDef → Except Fault (List Graph)
  | [] => .ok []
  | first :: others => do
      let graph ← lowerFunction defined first
      let graphs ← lowerFunctions defined others
      return graph :: graphs

end SmallC.Lowering

namespace SmallC

/-- The graphs of the functions of a program, in its order. -/
def Program.lower (program : Program) : Except Fault (List Graph) :=
  Lowering.lowerFunctions program.defines program.functions

end SmallC
