import SmallC.Operator
import SmallC.Span

/-!
# Programs as trees

The tree of a program, with the span of every node. Parentheses are kept as nodes, so that the tree
shows what was written; `Expr.ungrouped` looks through them.
-/

namespace SmallC

/-- The types of the language. Only functions may have type `void`. -/
inductive TypeName where
  | int
  | void
  deriving DecidableEq, Repr

/-- An occurrence of a name. -/
structure Ident where
  name : String
  span : Span
  deriving DecidableEq, Repr

/-- The kinds of literals. -/
inductive LiteralKind where
  | integer
  | character
  deriving DecidableEq, Repr

/-- A literal as it is written. -/
structure Literal where
  kind : LiteralKind
  text : String
  span : Span
  deriving DecidableEq, Repr

/-- Expressions. -/
inductive Expr where
  | literal (literal : Literal)
  | identifier (name : Ident)
  /-- An expression in parentheses. -/
  | group (span : Span) (inner : Expr)
  | call (span : Span) (callee : Ident) (arguments : List Expr)
  | binary (span : Span) (op : BinaryOp) (opSpan : Span) (left right : Expr)
  | unary (span : Span) (op : UnaryOp) (opSpan : Span) (operand : Expr)
  /-- An increment or decrement of a variable. -/
  | step (span : Span) (op : StepOp) (fixity : Fixity) (target : Ident)
  /-- An assignment, plain or with an operator. -/
  | assign (span : Span) (target : Ident) (op : Option (ArithmeticOp × Span)) (value : Expr)
  deriving Repr

/-- A variable and its initial value in a declaration. -/
structure Declarator where
  span : Span
  name : Ident
  initializer : Option Expr
  deriving Repr

/-- What a `for` statement does before its loop starts. -/
inductive ForInitializer where
  | declaration (declarators : List Declarator)
  | expression (value : Expr)
  deriving Repr

/-- Statements. -/
inductive Stmt where
  | declaration (span : Span) (declarators : List Declarator)
  | expression (span : Span) (value : Expr)
  | block (span : Span) (statements : List Stmt)
  | ifThen (span : Span) (condition : Expr) (positive : Stmt)
  | ifElse (span : Span) (condition : Expr) (positive negative : Stmt)
  | whileLoop (span : Span) (condition : Expr) (body : Stmt)
  | doWhile (span : Span) (body : Stmt) (condition : Expr)
  | forLoop (span : Span) (initializer : Option ForInitializer) (test after : Option Expr)
      (body : Stmt)
  | breakLoop (span : Span)
  | continueLoop (span : Span)
  | returnValue (span : Span) (value : Option Expr)
  | empty (span : Span)
  deriving Repr

/-- A parameter of a function. -/
structure Parameter where
  span : Span
  name : Ident
  deriving DecidableEq, Repr

/-- Statements between braces. -/
structure Block where
  span : Span
  statements : List Stmt
  deriving Repr

/-- The definition of a function. -/
structure FunctionDef where
  span : Span
  returnType : TypeName
  name : Ident
  parameters : List Parameter
  body : Block
  deriving Repr

/-- A whole program, with the offset of the end of its text. -/
structure Program where
  functions : List FunctionDef
  endOffset : Nat
  deriving Repr

namespace Expr

/-- The span of an expression. -/
def span : Expr → Span
  | .literal written => written.span
  | .identifier name => name.span
  | .group span _ => span
  | .call span _ _ => span
  | .binary span _ _ _ _ => span
  | .unary span _ _ _ => span
  | .step span _ _ _ => span
  | .assign span _ _ _ => span

/-- The expression inside any parentheses around it. -/
def ungrouped : Expr → Expr
  | .group _ inner => inner.ungrouped
  | other => other

mutual

/-- The first call in reading order whose callee is wanted: a call comes before the calls in its
arguments. -/
def findCall? (wanted : String → Bool) : Expr → Option (Ident × Span)
  | .literal _ => none
  | .identifier _ => none
  | .group _ inner => inner.findCall? wanted
  | .call span callee arguments =>
    if wanted callee.name then some (callee, span)
    else findCallIn? wanted arguments
  | .binary _ _ _ left right => (left.findCall? wanted).or (right.findCall? wanted)
  | .unary _ _ _ operand => operand.findCall? wanted
  | .step _ _ _ _ => none
  | .assign _ _ _ value => value.findCall? wanted

/-- The first wanted call in a list of expressions. -/
def findCallIn? (wanted : String → Bool) : List Expr → Option (Ident × Span)
  | [] => none
  | first :: others => (first.findCall? wanted).or (findCallIn? wanted others)

end

theorem findCall?_ungrouped (wanted : String → Bool) (value : Expr) :
    value.ungrouped.findCall? wanted = value.findCall? wanted := by
  fun_induction ungrouped value with
  | case1 span inner ih => rw [ih, findCall?]
  | case2 => rfl

end Expr

/-- The span of a statement. -/
def Stmt.span : Stmt → Span
  | .declaration span _ => span
  | .expression span _ => span
  | .block span _ => span
  | .ifThen span _ _ => span
  | .ifElse span _ _ _ => span
  | .whileLoop span _ _ => span
  | .doWhile span _ _ => span
  | .forLoop span _ _ _ _ => span
  | .breakLoop span => span
  | .continueLoop span => span
  | .returnValue span _ => span
  | .empty span => span

namespace Program

/-- Whether a program defines a function of a given name. -/
def defines (program : Program) (name : String) : Bool :=
  program.functions.any (·.name.name == name)

/-- Whether a program defines a function of a given name without a result. -/
def definesVoid (program : Program) (name : String) : Bool :=
  program.functions.any fun function =>
    function.name.name == name && function.returnType == .void

end Program

end SmallC
