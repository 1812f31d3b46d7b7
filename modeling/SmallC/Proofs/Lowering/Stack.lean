import SmallC.Graph.Lowering
import SmallC.Proofs.Result

/-!
# Loops on a stack

The loop around a statement can also be kept on a stack that lowering shares: the targets of a loop
are pushed before its body and popped after it.  After every statement the stack is as it was, so
lowering with a stack is lowering with the loop on top of it.
-/

namespace SmallC.Lowering

variable {defined : String → Bool}

/-- What lowering a function shares: its graph, and the targets of the loops around, the innermost
first. -/
structure Shared where
  graph : Graph
  loops : List LoopTargets

namespace Shared

/-- Changes the graph. -/
def onGraph (change : Graph → Except Fault Graph) (shared : Shared) : Except Fault Shared := do
  return ⟨← change shared.graph, shared.loops⟩

/-- Does something inside a loop. -/
def inLoop (targets : LoopTargets) (lower : Shared → Except Fault Shared) (shared : Shared) :
    Except Fault Shared := do
  let shared ← lower ⟨shared.graph, targets :: shared.loops⟩
  return ⟨shared.graph, shared.loops.tail⟩

mutual

/-- Lowers a statement.  One without another inside is only told of the innermost loop. -/
def lowerStmt (defined : String → Bool) : Stmt → Shared → Except Fault Shared
  | .block _ statements, ⟨graph, loops⟩ => do
      let shared ← lowerStmts defined statements ⟨graph.enterScope, loops⟩
      shared.onGraph Graph.leaveScope
  | .ifThen _ condition positive, ⟨graph, loops⟩ => do
      let (test, graph) ← lowerExpr defined condition graph
      let (whenTrue, graph) := graph.createBlock "if_true"
      let (out, graph) := graph.createBlock "if_out"
      let graph ← branchTo test whenTrue out graph
      let graph ← enterBlock whenTrue graph
      let shared ← lowerStmt defined positive ⟨graph, loops⟩
      shared.onGraph (jumpTo out >=> enterBlock out)
  | .ifElse _ condition positive negative, ⟨graph, loops⟩ => do
      let (test, graph) ← lowerExpr defined condition graph
      let (whenTrue, graph) := graph.createBlock "if_true"
      let (whenFalse, graph) := graph.createBlock "if_false"
      let (out, graph) := graph.createBlock "if_out"
      let graph ← branchTo test whenTrue whenFalse graph
      let graph ← enterBlock whenTrue graph
      let shared ← lowerStmt defined positive ⟨graph, loops⟩
      let shared ← shared.onGraph (jumpTo out)
      let shared ← shared.onGraph (enterBlock whenFalse)
      let shared ← lowerStmt defined negative shared
      shared.onGraph (jumpTo out >=> enterBlock out)
  | .whileLoop _ condition body, ⟨graph, loops⟩ => do
      let (testBlock, graph) := graph.createBlock "while_test"
      let (bodyBlock, graph) := graph.createBlock "while_body"
      let (out, graph) := graph.createBlock "while_out"
      let graph ← jumpTo testBlock graph
      let graph ← enterBlock testBlock graph
      let (test, graph) ← lowerExpr defined condition graph
      let graph ← branchTo test bodyBlock out graph
      let graph ← enterBlock bodyBlock graph
      let shared ← inLoop ⟨testBlock, out⟩ (lowerStmt defined body) ⟨graph, loops⟩
      shared.onGraph (jumpTo testBlock >=> enterBlock out)
  | .doWhile _ body condition, ⟨graph, loops⟩ => do
      let (bodyBlock, graph) := graph.createBlock "do_body"
      let (testBlock, graph) := graph.createBlock "do_test"
      let (out, graph) := graph.createBlock "do_out"
      let graph ← jumpTo bodyBlock graph
      let graph ← enterBlock bodyBlock graph
      let shared ← inLoop ⟨testBlock, out⟩ (lowerStmt defined body) ⟨graph, loops⟩
      shared.onGraph fun graph => do
        let graph ← jumpTo testBlock graph
        let graph ← enterBlock testBlock graph
        let (test, graph) ← lowerExpr defined condition graph
        let graph ← branchTo test bodyBlock out graph
        enterBlock out graph
  | .forLoop _ initializer test after body, ⟨graph, loops⟩ => do
      let graph ← lowerForInitializer defined initializer graph.enterScope
      let (blocks, graph) := createForBlocks after graph
      let graph ← jumpTo blocks.test graph
      let graph ← enterBlock blocks.test graph
      let graph ← lowerForTest defined blocks test graph
      let graph ← enterBlock blocks.body graph
      let shared ← inLoop blocks.targets (lowerStmt defined body) ⟨graph, loops⟩
      shared.onGraph
        (lowerForAfter defined blocks >=> jumpTo blocks.test >=> enterBlock blocks.out >=>
          Graph.leaveScope)
  | statement, shared => shared.onGraph (Lowering.lowerStmt defined shared.loops.head? statement)

/-- Lowers statements in order. -/
def lowerStmts (defined : String → Bool) : List Stmt → Shared → Except Fault Shared
  | [], shared => .ok shared
  | first :: others, shared => do
      let shared ← lowerStmt defined first shared
      lowerStmts defined others shared

end

/-- A step that gives a graph, beside one that leaves a stack with it. -/
def Keeps (loops : List LoopTargets) (lower : Except Fault Shared) (plain : Except Fault Graph) :
    Prop :=
  lower = plain.map (⟨·, loops⟩)

namespace Keeps

variable {loops : List LoopTargets} {plain : Except Fault Graph}

theorem bind {α : Type} {step : Except Fault α} {next : α → Except Fault Shared}
    {after : α → Except Fault Graph} (keeps : ∀ value, Keeps loops (next value) (after value)) :
    Keeps loops (step >>= next) (step >>= after) := by
  cases step with
  | error fault => rfl
  | ok value => exact keeps value

theorem andThen {lower : Except Fault Shared} {next : Shared → Except Fault Shared}
    {after : Graph → Except Fault Graph} (keeps : Keeps loops lower plain)
    (others : ∀ graph, Keeps loops (next ⟨graph, loops⟩) (after graph)) :
    Keeps loops (lower >>= next) (plain >>= after) := by
  rw [Keeps] at keeps
  subst keeps
  cases plain with
  | error fault => rfl
  | ok graph => exact others graph

theorem onGraph (change : Graph → Except Fault Graph) (graph : Graph) :
    Keeps loops (Shared.onGraph change ⟨graph, loops⟩) (change graph) := by
  rw [Keeps, Shared.onGraph]
  cases change graph <;> rfl

theorem inLoop {targets : LoopTargets} {lower : Shared → Except Fault Shared} {graph : Graph}
    (keeps : Keeps (targets :: loops) (lower ⟨graph, targets :: loops⟩) plain) :
    Keeps loops (Shared.inLoop targets lower ⟨graph, loops⟩) plain := by
  rw [Keeps] at keeps
  rw [Keeps, Shared.inLoop, keeps]
  cases plain <;> rfl

end Keeps

mutual

/-- Lowering a statement leaves the stack as it was, and gives what lowering it inside the loop on
top gives. -/
theorem keeps_lowerStmt (statement : Stmt) (graph : Graph) (loops : List LoopTargets) :
    Keeps loops (lowerStmt defined statement ⟨graph, loops⟩)
      (Lowering.lowerStmt defined loops.head? statement graph) := by
  cases statement with
  | block _ statements =>
    exact (keeps_lowerStmts statements graph.enterScope loops).andThen (.onGraph _)
  | ifThen _ condition positive =>
    refine .bind fun tested => .bind fun branched => .bind fun graph => ?_
    exact (keeps_lowerStmt positive graph loops).andThen (.onGraph _)
  | ifElse _ condition positive negative =>
    refine .bind fun tested => .bind fun branched => .bind fun graph => ?_
    refine (keeps_lowerStmt positive graph loops).andThen fun graph => ?_
    refine (Keeps.onGraph _ graph).andThen fun graph => ?_
    refine (Keeps.onGraph _ graph).andThen fun graph => ?_
    exact (keeps_lowerStmt negative graph loops).andThen (.onGraph _)
  | whileLoop _ condition body =>
    refine .bind fun jumped => .bind fun entered => .bind fun tested => .bind fun branched => ?_
    refine .bind fun graph => ?_
    exact (Keeps.inLoop (keeps_lowerStmt body graph _)).andThen (.onGraph _)
  | doWhile _ body condition =>
    refine .bind fun jumped => .bind fun graph => ?_
    exact (Keeps.inLoop (keeps_lowerStmt body graph _)).andThen (.onGraph _)
  | forLoop _ initializer test after body =>
    refine .bind fun started => .bind fun jumped => .bind fun entered => .bind fun tested => ?_
    refine .bind fun graph => ?_
    exact (Keeps.inLoop (keeps_lowerStmt body graph _)).andThen (.onGraph _)
  | declaration _ _ | expression _ _ | breakLoop _ | continueLoop _ | returnValue _ _ | empty _ =>
    exact .onGraph _ graph

theorem keeps_lowerStmts (statements : List Stmt) (graph : Graph) (loops : List LoopTargets) :
    Keeps loops (lowerStmts defined statements ⟨graph, loops⟩)
      (Lowering.lowerStmts defined loops.head? statements graph) := by
  cases statements with
  | nil => rfl
  | cons first others =>
    exact (keeps_lowerStmt first graph loops).andThen fun graph =>
      keeps_lowerStmts others graph loops

end

end Shared

/-- Lowering a function that starts outside of all loops gives the graph of the function, and ends
outside of all loops. -/
theorem lowerFunction_eq (function : FunctionDef) :
    (do
      let graph ← declareParameters 0 function.parameters (.new function.name.name)
      let shared ← Shared.lowerStmts defined function.body.statements ⟨graph.enterScope, []⟩
      shared.onGraph Graph.leaveScope) = (lowerFunction defined function).map (⟨·, []⟩) :=
  Shared.Keeps.bind fun graph =>
    (Shared.keeps_lowerStmts function.body.statements graph.enterScope []).andThen
      (.onGraph _)

end SmallC.Lowering
