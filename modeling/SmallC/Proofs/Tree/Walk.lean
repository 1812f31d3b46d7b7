import SmallC.Tree

/-!
# Walks through functions

What a function does with names, written down in the order in which it is read: scopes open and
close, variables are declared, read and written.  The operands of an expression come before what the
expression does itself, so the target of an assignment comes after its value, and what a `for`
statement does after its body comes after its body.
-/

namespace SmallC

/-- What happens to names on the way through a function. -/
inductive ScopeEvent where
  /-- A scope opens. -/
  | enter
  /-- The innermost scope closes. -/
  | leave
  | parameter (name : Ident)
  | declare (name : Ident)
  | read (name : Ident)
  | write (name : Ident)
  deriving DecidableEq, Repr

/-- The events on the way through a function, in order. -/
abbrev Walk := List ScopeEvent

/-! ## Expressions -/

mutual

/-- The events of an expression.  A step and an assignment with an operator read their target; what
they write is no news, as the variable has a value that was read. -/
def Expr.events : Expr → Walk
  | .literal _ => []
  | .identifier name => [.read name]
  | .group _ inner => inner.events
  | .call _ _ arguments => Expr.eventsOfAll arguments
  | .binary _ _ _ left right => left.events ++ right.events
  | .unary _ _ _ operand => operand.events
  | .step _ _ _ target => [.read target]
  | .assign _ target op value =>
    value.events ++ [if op.isSome then .read target else .write target]

/-- The events of expressions from left to right. -/
def Expr.eventsOfAll : List Expr → Walk
  | [] => []
  | first :: others => first.events ++ Expr.eventsOfAll others

end

/-- The events of an expression that may be missing. -/
def Expr.eventsOfOption : Option Expr → Walk
  | none => []
  | some value => value.events

/-! ## Statements -/

/-- The events of one variable of a declaration.  It is written when its initial value is known. -/
def Declarator.events (declarator : Declarator) : Walk :=
  match declarator.initializer with
  | none => [.declare declarator.name]
  | some value => .declare declarator.name :: (value.events ++ [.write declarator.name])

/-- The events of the variables of a declaration. -/
def Declarator.eventsOfAll : List Declarator → Walk
  | [] => []
  | first :: others => first.events ++ Declarator.eventsOfAll others

/-- The events of what a `for` statement does before its loop. -/
def ForInitializer.events : Option ForInitializer → Walk
  | none => []
  | some (.declaration declarators) => Declarator.eventsOfAll declarators
  | some (.expression value) => value.events

mutual

/-- The events of a statement. -/
def Stmt.events : Stmt → Walk
  | .declaration _ declarators => Declarator.eventsOfAll declarators
  | .expression _ value => value.events
  | .block _ statements => .enter :: (Stmt.eventsOfAll statements ++ [.leave])
  | .ifThen _ condition positive => condition.events ++ positive.events
  | .ifElse _ condition positive negative =>
    condition.events ++ (positive.events ++ negative.events)
  | .whileLoop _ condition body => condition.events ++ body.events
  | .doWhile _ body condition => body.events ++ condition.events
  | .forLoop _ initializer test after body =>
    .enter :: (ForInitializer.events initializer ++ (Expr.eventsOfOption test ++
      (body.events ++ (Expr.eventsOfOption after ++ [.leave]))))
  | .breakLoop _ => []
  | .continueLoop _ => []
  | .returnValue _ value => Expr.eventsOfOption value
  | .empty _ => []

/-- The events of statements in order. -/
def Stmt.eventsOfAll : List Stmt → Walk
  | [] => []
  | first :: others => first.events ++ Stmt.eventsOfAll others

end

/-! ## Functions -/

/-- The walk through a function: its parameters, and its body in a scope of its own. -/
def FunctionDef.walk (function : FunctionDef) : Walk :=
  function.parameters.map (fun parameter => .parameter parameter.name) ++
    .enter :: (Stmt.eventsOfAll function.body.statements ++ [.leave])

end SmallC
