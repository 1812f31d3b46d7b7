import SmallC.Proofs.Result
import SmallC.Semantic.Check

/-!
# Checks that share their state

The functions of a program can also be checked one after another with one record of the variables in
scope and of the number of loops around.  After every statement the number of loops is what it was,
and after every function nothing is in scope.  So this gives what checking each function from the
start gives.
-/

namespace SmallC.Semantic

/-- What the check of a program shares: a state, and the number of loops around. -/
structure Shared where
  state : State
  loops : Nat

namespace Shared

/-- Outside of all functions. -/
def outside : Shared :=
  ⟨⟨.single [], []⟩, 0⟩

/-- Changes the state. -/
def onState (check : State → Except SemanticError State) (shared : Shared) :
    Except SemanticError Shared := do
  return ⟨← check shared.state, shared.loops⟩

/-- Does something inside a loop. -/
def inLoop (check : Shared → Except SemanticError Shared) (shared : Shared) :
    Except SemanticError Shared := do
  let shared ← check ⟨shared.state, shared.loops + 1⟩
  return ⟨shared.state, shared.loops - 1⟩

/-- Does something in a scope of its own. -/
def inScope (check : Shared → Except SemanticError Shared) (shared : Shared) :
    Except SemanticError Shared := do
  let shared ← check ⟨shared.state.enter, shared.loops⟩
  return ⟨shared.state.leave, shared.loops⟩

mutual

/-- Checks a statement.  One without another inside is only told whether there is a loop around. -/
def checkStmt (isVoid : String → Bool) : Stmt → Shared → Except SemanticError Shared
  | .block _ statements => inScope (checkStmts isVoid statements)
  | .ifThen _ condition positive =>
    onState (checkUsed isVoid condition) >=> checkStmt isVoid positive
  | .ifElse _ condition positive negative =>
    onState (checkUsed isVoid condition) >=> checkStmt isVoid positive >=> checkStmt isVoid negative
  | .whileLoop _ condition body =>
    onState (checkUsed isVoid condition) >=> inLoop (checkStmt isVoid body)
  | .doWhile _ body condition =>
    inLoop (checkStmt isVoid body) >=> onState (checkUsed isVoid condition)
  | .forLoop _ initializer test after body =>
    inScope <| onState (checkForInitializer isVoid initializer) >=>
      onState (checkOptional (checkUsed isVoid) test) >=> inLoop (checkStmt isVoid body) >=>
      onState (checkOptional (checkDiscarded isVoid) after)
  | statement => fun shared =>
    shared.onState (Semantic.checkStmt isVoid (0 < shared.loops) statement)

/-- Checks statements in order. -/
def checkStmts (isVoid : String → Bool) : List Stmt → Shared → Except SemanticError Shared
  | [] => .ok
  | first :: others => checkStmt isVoid first >=> checkStmts isVoid others

end

/-- Checks a function and gives its warnings.  Its parameters are all that is in scope before its
body, and nothing is after it. -/
def checkFunction (isVoid : String → Bool) (function : FunctionDef) (shared : Shared) :
    Except SemanticError (List Warning × Shared) :=
  match firstRepeated? [] (function.parameters.map (·.name)) with
  | some name => .error ⟨.duplicateParameter name.name, name.span⟩
  | none => do
      let shared ← inScope (checkStmts isVoid function.body.statements)
        ⟨initialState function.parameters, shared.loops⟩
      return (shared.state.warnings, ⟨outside.state, shared.loops⟩)

/-- Checks functions in order and gives their warnings in that order. -/
def checkFunctions (isVoid : String → Bool) :
    List FunctionDef → Shared → Except SemanticError (List Warning × Shared)
  | [], shared => .ok ([], shared)
  | first :: others, shared => do
      let (warnings, shared) ← checkFunction isVoid first shared
      let (more, shared) ← checkFunctions isVoid others shared
      return (warnings ++ more, shared)

/-- A check of the shared state that does to the state what another check does, and leaves the number
of loops as it is. -/
def Keeps (check : Shared → Except SemanticError Shared) (loops : Nat)
    (plain : State → Except SemanticError State) : Prop :=
  ∀ state, check ⟨state, loops⟩ = (plain state).map (⟨·, loops⟩)

namespace Keeps

variable {check other : Shared → Except SemanticError Shared} {loops : Nat}
  {plain otherPlain : State → Except SemanticError State}

theorem onState (plain : State → Except SemanticError State) :
    Keeps (Shared.onState plain) loops plain := by
  intro state
  rw [Shared.onState]
  cases plain state <;> rfl

theorem andThen (keeps : Keeps check loops plain) (others : Keeps other loops otherPlain) :
    Keeps (check >=> other) loops (plain >=> otherPlain) := by
  intro state
  rw [Bind.kleisliRight, keeps state, Bind.kleisliRight]
  cases plain state with
  | error error => rfl
  | ok after => exact others after

theorem inLoop (keeps : Keeps check (loops + 1) plain) : Keeps (Shared.inLoop check) loops plain := by
  intro state
  rw [Shared.inLoop, keeps state]
  cases plain state <;> rfl

theorem inScope (keeps : Keeps check loops plain) :
    Keeps (Shared.inScope check) loops fun state => return (← plain state.enter).leave := by
  intro state
  rw [Shared.inScope, keeps state.enter]
  dsimp only
  cases plain state.enter <;> rfl

end Keeps

variable {isVoid : String → Bool}

mutual

/-- Checking a statement leaves the number of loops as it was, and gives what checking it inside or
outside of a loop gives. -/
theorem keeps_checkStmt (statement : Stmt) (loops : Nat) :
    Keeps (checkStmt isVoid statement) loops (Semantic.checkStmt isVoid (0 < loops) statement) := by
  cases statement with
  | block _ statements => exact .inScope (keeps_checkStmts statements loops)
  | ifThen _ _ positive => exact (Keeps.onState _).andThen (keeps_checkStmt positive loops)
  | ifElse _ _ positive negative =>
    exact (Keeps.onState _).andThen
      ((keeps_checkStmt positive loops).andThen (keeps_checkStmt negative loops))
  | whileLoop _ _ body =>
    exact (Keeps.onState _).andThen (.inLoop (keeps_checkStmt body (loops + 1)))
  | doWhile _ body _ =>
    exact (Keeps.inLoop (keeps_checkStmt body (loops + 1))).andThen (.onState _)
  | forLoop span initializer test after body =>
    have header : Keeps (checkStmt isVoid (.forLoop span initializer test after body)) loops _ :=
      .inScope ((Keeps.onState _).andThen ((Keeps.onState _).andThen
        ((Keeps.inLoop (keeps_checkStmt body (loops + 1))).andThen (.onState _))))
    simp only [Bind.kleisliRight, bind_assoc] at header
    exact header
  | declaration _ _ | expression _ _ | breakLoop _ | continueLoop _ | returnValue _ _ | empty _ =>
    exact fun state => Keeps.onState _ state

theorem keeps_checkStmts (statements : List Stmt) (loops : Nat) :
    Keeps (checkStmts isVoid statements) loops
      (Semantic.checkStmts isVoid (0 < loops) statements) := by
  cases statements with
  | nil => exact fun _ => rfl
  | cons first others =>
    exact (keeps_checkStmt first loops).andThen (keeps_checkStmts others loops)

end

theorem checkFunction_eq (function : FunctionDef) :
    checkFunction isVoid function outside =
      (Semantic.checkFunction isVoid function).map (·, outside) := by
  have body : inScope (checkStmts isVoid function.body.statements) ⟨_, 0⟩ = _ :=
    (keeps_checkStmts function.body.statements 0).inScope (initialState function.parameters)
  rw [checkFunction, Semantic.checkFunction]
  cases firstRepeated? [] (function.parameters.map (·.name)) with
  | some name => rfl
  | none =>
    simp only [outside, body, Nat.lt_irrefl, decide_false]
    cases Semantic.checkStmts isVoid false function.body.statements _ <;> rfl

/-- Checking functions that share their state gives what checking each from the start gives, and ends
outside of all functions again. -/
theorem checkFunctions_eq (functions : List FunctionDef) :
    checkFunctions isVoid functions outside =
      (Semantic.checkFunctions isVoid functions).map (·, outside) := by
  induction functions with
  | nil => rfl
  | cons first others ih =>
    rw [checkFunctions, checkFunction_eq, Semantic.checkFunctions]
    cases Semantic.checkFunction isVoid first with
    | error error => rfl
    | ok warnings =>
      show (do
        let (more, shared) ← checkFunctions isVoid others outside
        return (warnings ++ more, shared)) = _
      rw [ih]
      cases Semantic.checkFunctions isVoid others <;> rfl

end Shared

end SmallC.Semantic
