import SmallC.Scope
import SmallC.Semantic.Error
import SmallC.Tree

/-!
# Checking programs

A program is checked function by function in the order of its text, and the first error ends the
check. On the way each variable moves from declared to initialized to used; what it has not reached
when it is read, or when its scope closes, gives the warnings.
-/

namespace SmallC.Semantic

/-! ## State -/

/-- How far a variable has come. -/
inductive Usage where
  | declared
  | initialized
  | used
  deriving DecidableEq, Repr

/-- A variable in scope. -/
structure Variable where
  usage : Usage
  span : Span
  deriving DecidableEq, Repr

/-- The variables in scope and the warnings so far, the oldest first. -/
structure State where
  scopes : Scopes Variable
  warnings : List Warning
  deriving Repr

/-- A variable that has a value. -/
def Variable.assigned (entry : Variable) : Variable :=
  match entry.usage with
  | .declared => { entry with usage := .initialized }
  | _ => entry

namespace State

/-- Opens a scope. -/
def enter (state : State) : State :=
  { state with scopes := state.scopes.enter }

/-- The warnings about a scope that closes: its variables that were never read, sorted by name. -/
def unusedWarnings (scope : Scope Variable) : List Warning :=
  let unused := scope.filter fun entry => entry.2.usage != .used
  let sorted := unused.mergeSort fun first second => decide (first.1 ≤ second.1)
  sorted.map fun entry => ⟨.unusedVariable entry.1, entry.2.span⟩

/-- Closes a scope and warns of its unused variables. -/
def leave (state : State) : State :=
  match state.scopes.leave? with
  | none => state
  | some outer => ⟨outer, state.warnings ++ unusedWarnings state.scopes.innermost⟩

/-- Notes that a variable gets a value. -/
def assign (state : State) (name : String) : State :=
  { state with scopes := state.scopes.modify name Variable.assigned }

/-- Notes that the value of a variable is read. -/
def read (name : Ident) (state : State) : Except SemanticError State :=
  match state.scopes.lookup? name.name with
  | none => .error ⟨.undeclaredVariable name.name, name.span⟩
  | some found =>
    let scopes := state.scopes.modify name.name fun entry => { entry with usage := .used }
    let warnings :=
      if found.usage = .declared then [⟨.uninitializedRead name.name, name.span⟩] else []
    .ok ⟨scopes, state.warnings ++ warnings⟩

/-- Declares a variable without a value. -/
def declare (name : Ident) (state : State) : Except SemanticError State :=
  if state.scopes.declaresHere name.name then
    .error ⟨.redeclaration name.name, name.span⟩
  else if state.scopes.hidesParameter name.name then
    .error ⟨.shadowsParameter name.name, name.span⟩
  else
    .ok { state with scopes := state.scopes.declare name.name ⟨.declared, name.span⟩ }

end State

/-! ## Results of void functions -/

/-- Refuses a call whose result does not exist. -/
def refuseCall : Option (Ident × Span) → Except SemanticError Unit
  | none => .ok ()
  | some (callee, span) => .error ⟨.voidResultUsed callee.name, span⟩

/-- Checks an expression whose value is used: it may not call a void function. -/
def valueUsed (isVoid : String → Bool) (value : Expr) : Except SemanticError Unit :=
  refuseCall (value.findCall? isVoid)

/-- Checks an expression whose value is not used: it may be a call of a void function itself, but
may not use the result of one. -/
def valueDiscarded (isVoid : String → Bool) (value : Expr) : Except SemanticError Unit :=
  match value.ungrouped with
  | .call _ _ arguments => refuseCall (Expr.findCallIn? isVoid arguments)
  | .assign _ _ _ assigned => valueUsed isVoid assigned
  | _ => valueUsed isVoid value

/-! ## Expressions -/

mutual

/-- Checks the names in an expression, in the order of evaluation. -/
def checkExpr : Expr → State → Except SemanticError State
  | .literal _, state => .ok state
  | .identifier name, state => state.read name
  | .group _ inner, state => checkExpr inner state
  | .call _ callee arguments, state =>
    if (state.scopes.lookup? callee.name).isSome then
      .error ⟨.calleeIsVariable callee.name, callee.span⟩
    else
      checkExprs arguments state
  | .binary _ _ _ left right, state => do
      let state ← checkExpr left state
      checkExpr right state
  | .unary _ _ _ operand, state => checkExpr operand state
  | .step _ _ _ target, state => state.read target
  | .assign _ target op value, state => do
      if (state.scopes.lookup? target.name).isNone then
        throw ⟨.undeclaredVariable target.name, target.span⟩
      let state ← checkExpr value state
      let state ← if op.isSome then state.read target else pure state
      return state.assign target.name

/-- Checks expressions from left to right. -/
def checkExprs : List Expr → State → Except SemanticError State
  | [], state => .ok state
  | first :: others, state => do
      let state ← checkExpr first state
      checkExprs others state

end

/-- Checks an expression whose value is used. -/
def checkUsed (isVoid : String → Bool) (value : Expr) (state : State) :
    Except SemanticError State := do
  valueUsed isVoid value
  checkExpr value state

/-- Checks an expression whose value is not used. -/
def checkDiscarded (isVoid : String → Bool) (value : Expr) (state : State) :
    Except SemanticError State := do
  valueDiscarded isVoid value
  checkExpr value state

/-! ## Statements -/

/-- Checks one variable of a declaration. The variable is in scope in its own initial value. -/
def checkDeclarator (isVoid : String → Bool) (declarator : Declarator) (state : State) :
    Except SemanticError State :=
  match declarator.initializer with
  | none => state.declare declarator.name
  | some value => do
      valueUsed isVoid value
      let state ← state.declare declarator.name
      let state ← checkExpr value state
      return state.assign declarator.name.name

/-- Checks the variables of a declaration. -/
def checkDeclarators (isVoid : String → Bool) :
    List Declarator → State → Except SemanticError State
  | [], state => .ok state
  | first :: others, state => do
      let state ← checkDeclarator isVoid first state
      checkDeclarators isVoid others state

/-- Checks what a `for` statement does before its loop. -/
def checkForInitializer (isVoid : String → Bool) :
    Option ForInitializer → State → Except SemanticError State
  | none, state => .ok state
  | some (.declaration declarators), state => checkDeclarators isVoid declarators state
  | some (.expression value), state => checkDiscarded isVoid value state

/-- Checks an expression that may be missing. -/
def checkOptional (check : Expr → State → Except SemanticError State) :
    Option Expr → State → Except SemanticError State
  | none, state => .ok state
  | some value, state => check value state

mutual

/-- Checks a statement, inside or outside of a loop. -/
def checkStmt (isVoid : String → Bool) (inLoop : Bool) :
    Stmt → State → Except SemanticError State
  | .declaration _ declarators, state => checkDeclarators isVoid declarators state
  | .expression _ value, state => checkDiscarded isVoid value state
  | .block _ statements, state => do
      let state ← checkStmts isVoid inLoop statements state.enter
      return state.leave
  | .ifThen _ condition positive, state => do
      let state ← checkUsed isVoid condition state
      checkStmt isVoid inLoop positive state
  | .ifElse _ condition positive negative, state => do
      let state ← checkUsed isVoid condition state
      let state ← checkStmt isVoid inLoop positive state
      checkStmt isVoid inLoop negative state
  | .whileLoop _ condition body, state => do
      let state ← checkUsed isVoid condition state
      checkStmt isVoid true body state
  | .doWhile _ body condition, state => do
      let state ← checkStmt isVoid true body state
      checkUsed isVoid condition state
  | .forLoop _ initializer test after body, state => do
      let state ← checkForInitializer isVoid initializer state.enter
      let state ← checkOptional (checkUsed isVoid) test state
      let state ← checkStmt isVoid true body state
      let state ← checkOptional (checkDiscarded isVoid) after state
      return state.leave
  | .breakLoop span, state =>
    if inLoop then .ok state else .error ⟨.breakOutsideLoop, span⟩
  | .continueLoop span, state =>
    if inLoop then .ok state else .error ⟨.continueOutsideLoop, span⟩
  | .returnValue _ value, state => checkOptional (checkUsed isVoid) value state
  | .empty _, state => .ok state

/-- Checks statements in order. -/
def checkStmts (isVoid : String → Bool) (inLoop : Bool) :
    List Stmt → State → Except SemanticError State
  | [], state => .ok state
  | first :: others, state => do
      let state ← checkStmt isVoid inLoop first state
      checkStmts isVoid inLoop others state

end

/-! ## Programs -/

/-- The first name that stands for the second time in a list, given the names seen before it. -/
def firstRepeated? (seen : List String) : List Ident → Option Ident
  | [] => none
  | name :: others =>
    if seen.contains name.name then some name
    else firstRepeated? (name.name :: seen) others

/-- The state in which the body of a function is checked. Parameters have values. -/
def initialState (parameters : List Parameter) : State :=
  let scope := parameters.map fun parameter =>
    (parameter.name.name, (⟨.initialized, parameter.span⟩ : Variable))
  ⟨.single scope.reverse, []⟩

/-- Checks a function and gives its warnings. -/
def checkFunction (isVoid : String → Bool) (function : FunctionDef) :
    Except SemanticError (List Warning) :=
  match firstRepeated? [] (function.parameters.map (·.name)) with
  | some name => .error ⟨.duplicateParameter name.name, name.span⟩
  | none => do
      let state := (initialState function.parameters).enter
      let state ← checkStmts isVoid false function.body.statements state
      return state.leave.warnings

/-- Checks functions in order and gives their warnings in that order. -/
def checkFunctions (isVoid : String → Bool) :
    List FunctionDef → Except SemanticError (List Warning)
  | [] => .ok []
  | first :: others => do
      let warnings ← checkFunction isVoid first
      let more ← checkFunctions isVoid others
      return warnings ++ more

end SmallC.Semantic

namespace SmallC.Program

/-- Checks a whole program and gives its warnings. Functions may be used before their
definition. -/
def check (program : Program) : Except SemanticError (List Warning) :=
  match Semantic.firstRepeated? [] (program.functions.map (·.name)) with
  | some name => .error ⟨.duplicateFunction name.name, name.span⟩
  | none => do
      let warnings ← Semantic.checkFunctions program.definesVoid program.functions
      if program.defines "main" then
        return warnings
      else
        throw ⟨.missingMain, .point program.endOffset⟩

end SmallC.Program
