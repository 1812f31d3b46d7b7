import SmallC.Graph.Literal
import SmallC.Proofs.Semantics.Operator
import SmallC.Scope

/-!
# Meaning of programs

Programs are evaluated from left to right over 32-bit numbers.  A variable has no value until one is
assigned to it, and neither does a call of a function that ends without a result; to use a value that
does not exist halts the evaluation.  Functions that the program does not define are answered from
outside, and their calls are recorded.

Loops and calls of the program's own functions take fuel, so that evaluation always ends.  An
evaluation that needs more than it has is a timeout, and says nothing about longer ones.
-/

namespace SmallC

/-! ## Calls from outside -/

/-- A call that was answered from outside. -/
structure Event where
  function : String
  arguments : List Int32
  answer : Int32
  deriving DecidableEq, Repr

/-- The calls so far, the oldest first. -/
abbrev Trace := List Event

/-- Answers to calls of functions that a program does not define.  They may depend on all calls
before. -/
abbrev Oracle := Trace → String → List Int32 → Int32

namespace Evaluation

/-! ## Halting -/

/-- Why an evaluation halts. -/
inductive Reason where
  /-- An operator has no result. -/
  | fault
  /-- The fuel is used up. -/
  | timeout
  /-- A value is used that does not exist. -/
  | indeterminate
  /-- The program is none: a name stands for nothing, a call does not match its function, or a jump
  has no loop around it. -/
  | invalid
  deriving DecidableEq, Repr

/-- An evaluation that halts, with the calls until then. -/
structure Halt where
  reason : Reason
  trace : Trace
  deriving DecidableEq, Repr

/-! ## State -/

/-- The variables of the running function, and the calls so far. -/
structure State where
  scopes : Scopes (Option Int32)
  trace : Trace
  deriving Repr

namespace State

variable {α : Type}

/-- Halts the evaluation. -/
def halt (state : State) (reason : Reason) : Except Halt α :=
  .error ⟨reason, state.trace⟩

/-- The value of a variable. -/
def read (state : State) (name : String) : Except Halt Int32 :=
  match state.scopes.lookup? name with
  | none => state.halt .invalid
  | some none => state.halt .indeterminate
  | some (some value) => .ok value

/-- Assigns a value to a variable. -/
def write (state : State) (name : String) (value : Int32) : Except Halt State :=
  match state.scopes.lookup? name with
  | none => state.halt .invalid
  | some _ => .ok { state with scopes := state.scopes.modify name fun _ => some value }

/-- Declares a variable, which has no value yet. -/
def declare (state : State) (name : String) : State :=
  { state with scopes := state.scopes.declare name none }

/-- Opens a scope. -/
def enter (state : State) : State :=
  { state with scopes := state.scopes.enter }

/-- Closes a scope. -/
def leave (state : State) : State :=
  match state.scopes.leave? with
  | none => state
  | some outer => { state with scopes := outer }

/-- The result of an operator, which may fault. -/
def checked (state : State) : Option Int32 → Except Halt Int32
  | none => state.halt .fault
  | some value => .ok value

end State

/-! ## Expressions -/

/-- How functions are called: the result, if there is one, and the calls until then. -/
abbrev Caller := String → List Int32 → Trace → Except Halt (Option Int32 × Trace)

/-- Uses the value of an expression. -/
def demand : Option Int32 × State → Except Halt (Int32 × State)
  | (none, state) => state.halt .indeterminate
  | (some value, state) => .ok (value, state)

/-- The value of a step operator, and the state after it. -/
def step (op : StepOp) (fixity : Fixity) (name : String) (state : State) :
    Except Halt (Option Int32 × State) := do
  let value ← state.read name
  let state ← state.write name (op.apply value)
  match fixity with
  | .before => return (some (op.apply value), state)
  | .after => return (some value, state)

/-- The value that an assignment stores.  The variable is read after the value is evaluated. -/
def stored (op : Option ArithmeticOp) (name : String) (value : Int32) (state : State) :
    Except Halt Int32 :=
  match op with
  | none => .ok value
  | some op => do
      let old ← state.read name
      state.checked (op.apply old value)

mutual

/-- Evaluates an expression. -/
def evalExpr (call : Caller) : Expr → State → Except Halt (Option Int32 × State)
  | .literal written, state =>
    match written.value with
    | .error _ => state.halt .invalid
    | .ok value => .ok (some value, state)
  | .identifier name, state => do
      let value ← state.read name.name
      return (some value, state)
  | .group _ inner, state => evalExpr call inner state
  | .call _ callee arguments, state => do
      let (values, state) ← evalArguments call arguments state
      let (result, trace) ← call callee.name values state.trace
      return (result, { state with trace := trace })
  | .binary _ (.arithmetic op) _ left right, state => do
      let (leftValue, state) ← evalExpr call left state >>= demand
      let (rightValue, state) ← evalExpr call right state >>= demand
      let value ← state.checked (op.apply leftValue rightValue)
      return (some value, state)
  | .binary _ (.compare op) _ left right, state => do
      let (leftValue, state) ← evalExpr call left state >>= demand
      let (rightValue, state) ← evalExpr call right state >>= demand
      return (some (op.apply leftValue rightValue), state)
  | .binary _ (.logical op) _ left right, state => do
      let (leftValue, state) ← evalExpr call left state >>= demand
      match op.decided? leftValue with
      | some value => return (some value, state)
      | none =>
        let (rightValue, state) ← evalExpr call right state >>= demand
        return (some (truth (rightValue != 0)), state)
  | .unary _ op _ operand, state => do
      let (value, state) ← evalExpr call operand state >>= demand
      return (some (op.apply value), state)
  | .step _ op fixity target, state => step op fixity target.name state
  | .assign _ target op value, state => do
      let (value, state) ← evalExpr call value state >>= demand
      let result ← stored (op.map Prod.fst) target.name value state
      let state ← state.write target.name result
      return (some result, state)

/-- Evaluates the arguments of a call from left to right. -/
def evalArguments (call : Caller) : List Expr → State → Except Halt (List Int32 × State)
  | [], state => .ok ([], state)
  | first :: others, state => do
      let (value, state) ← evalExpr call first state >>= demand
      let (values, state) ← evalArguments call others state
      return (value :: values, state)

end

/-- Evaluates an expression for what it does. -/
def evalEffect (call : Caller) (value : Expr) (state : State) : Except Halt State := do
  let (_, state) ← evalExpr call value state
  return state

/-- Evaluates a condition.  A missing one holds. -/
def evalCondition (call : Caller) : Option Expr → State → Except Halt (Bool × State)
  | none, state => .ok (true, state)
  | some condition, state => do
      let (value, state) ← evalExpr call condition state >>= demand
      return (value != 0, state)

/-! ## Declarations -/

/-- Declares a variable and evaluates its initial value, in which it is already in scope. -/
def execDeclarator (call : Caller) (declarator : Declarator) (state : State) :
    Except Halt State :=
  match declarator.initializer with
  | none => .ok (state.declare declarator.name.name)
  | some value => do
      let (value, state) ← evalExpr call value (state.declare declarator.name.name) >>= demand
      state.write declarator.name.name value

/-- Declares variables in order. -/
def execDeclarators (call : Caller) : List Declarator → State → Except Halt State
  | [], state => .ok state
  | first :: others, state => do
      let state ← execDeclarator call first state
      execDeclarators call others state

/-- Does what a `for` statement does before its loop. -/
def execForInitializer (call : Caller) : Option ForInitializer → State → Except Halt State
  | none, state => .ok state
  | some (.declaration declarators), state => execDeclarators call declarators state
  | some (.expression value), state => evalEffect call value state

/-- Does what a `for` statement does after its body. -/
def execForAfter (call : Caller) : Option Expr → State → Except Halt State
  | none, state => .ok state
  | some value, state => evalEffect call value state

/-! ## Statements -/

/-- How a statement ends. -/
inductive Signal where
  | normal
  | broke
  | continued
  | returned (value : Option Int32)
  deriving DecidableEq, Repr

/-- How a loop ends when its body ends in the given way, if it does end. -/
def Signal.endsLoop? : Signal → Option Signal
  | .normal => none
  | .continued => none
  | .broke => some .normal
  | .returned value => some (.returned value)

/-- Repeats a round of a loop until it ends the loop, at most as often as there is fuel. -/
def repeatRounds (round : State → Except Halt (Option Signal × State)) :
    Nat → State → Except Halt (Signal × State)
  | 0, state => state.halt .timeout
  | fuel + 1, state => do
      match ← round state with
      | (none, state) => repeatRounds round fuel state
      | (some signal, state) => return (signal, state)

/-- Goes on with a round after the body of a loop, unless the body ended the loop. -/
def afterBody (goOn : State → Except Halt (Option Signal × State)) :
    Option Signal → State → Except Halt (Option Signal × State)
  | some ended, state => .ok (some ended, state)
  | none, state => goOn state

mutual

/-- Executes a statement. -/
def execStmt (call : Caller) (fuel : Nat) : Stmt → State → Except Halt (Signal × State)
  | .declaration _ declarators, state => do
      let state ← execDeclarators call declarators state
      return (.normal, state)
  | .expression _ value, state => do
      let state ← evalEffect call value state
      return (.normal, state)
  | .block _ statements, state => do
      let (signal, state) ← execStmts call fuel statements state.enter
      return (signal, state.leave)
  | .ifThen _ condition positive, state => do
      let (holds, state) ← evalCondition call (some condition) state
      if holds then execStmt call fuel positive state else return (.normal, state)
  | .ifElse _ condition positive negative, state => do
      let (holds, state) ← evalCondition call (some condition) state
      if holds then execStmt call fuel positive state else execStmt call fuel negative state
  | .whileLoop _ condition body, state =>
    repeatRounds (fun state => do
      let (holds, state) ← evalCondition call (some condition) state
      if holds then
        let (signal, state) ← execStmt call fuel body state
        return (signal.endsLoop?, state)
      else
        return (some .normal, state)) fuel state
  | .doWhile _ body condition, state =>
    repeatRounds (fun state => do
      let (signal, state) ← execStmt call fuel body state
      afterBody (fun state => do
        let (holds, state) ← evalCondition call (some condition) state
        return (if holds then none else some .normal, state)) signal.endsLoop? state) fuel state
  | .forLoop _ initializer test after body, state => do
      let state ← execForInitializer call initializer state.enter
      let (signal, state) ← repeatRounds (fun state => do
        let (holds, state) ← evalCondition call test state
        if holds then
          let (signal, state) ← execStmt call fuel body state
          afterBody (fun state => do
            let state ← execForAfter call after state
            return (none, state)) signal.endsLoop? state
        else
          return (some .normal, state)) fuel state
      return (signal, state.leave)
  | .breakLoop _, state => .ok (.broke, state)
  | .continueLoop _, state => .ok (.continued, state)
  | .returnValue _ none, state => .ok (.returned none, state)
  | .returnValue _ (some value), state => do
      let (value, state) ← evalExpr call value state >>= demand
      return (.returned (some value), state)
  | .empty _, state => .ok (.normal, state)

/-- Executes statements in order until one of them does not end normally. -/
def execStmts (call : Caller) (fuel : Nat) : List Stmt → State → Except Halt (Signal × State)
  | [], state => .ok (.normal, state)
  | first :: others, state => do
      match ← execStmt call fuel first state with
      | (.normal, state) => execStmts call fuel others state
      | (signal, state) => return (signal, state)

end

/-! ## Functions -/

/-- The state in which the body of a function is executed. -/
def initialState (parameters : List Parameter) (values : List Int32) (trace : Trace) : State :=
  let scope := parameters.zipWith (fun parameter value => (parameter.name.name, some value)) values
  ⟨(Scopes.single scope.reverse).enter, trace⟩

/-- The result of a function and the calls until its end.  Without a `return` there is no result. -/
def result : Signal × State → Except Halt (Option Int32 × Trace)
  | (.normal, state) => .ok (none, state.trace)
  | (.returned value, state) => .ok (value, state.trace)
  | (.broke, state) => state.halt .invalid
  | (.continued, state) => state.halt .invalid

/-- Runs a function on the values of its parameters, with a given way to call other functions. -/
def runFunction (call : Caller) (fuel : Nat) (function : FunctionDef) (values : List Int32)
    (trace : Trace) : Except Halt (Option Int32 × Trace) :=
  if function.parameters.length = values.length then
    execStmts call fuel function.body.statements (initialState function.parameters values trace) >>=
      result
  else
    .error ⟨.invalid, trace⟩

end Evaluation

/-- The function of a given name. -/
def Program.function? (program : Program) (name : String) : Option FunctionDef :=
  program.functions.find? (·.name.name == name)

/-- Calls a function of a program, or asks for the answer of one that it does not define.  Each call
has one unit less of fuel than the one that it is made from. -/
def Program.call (program : Program) (oracle : Oracle) : Nat → Evaluation.Caller
  | fuel, name, values, trace =>
    match program.function? name, fuel with
    | none, _ =>
      let answer := oracle trace name values
      .ok (some answer, trace ++ [⟨name, values, answer⟩])
    | some _, 0 => .error ⟨.timeout, trace⟩
    | some function, fuel + 1 =>
      Evaluation.runFunction (program.call oracle fuel) fuel function values trace

/-- Runs a function of a program from the start. -/
def Program.run (program : Program) (oracle : Oracle) (function : FunctionDef) (values : List Int32)
    (fuel : Nat) : Except Evaluation.Halt (Option Int32 × Trace) :=
  Evaluation.runFunction (program.call oracle fuel) fuel function values []

end SmallC
