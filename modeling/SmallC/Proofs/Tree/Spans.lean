import SmallC.Tree

/-!
# Spans of a tree

What it means for something to hold of every span that a tree carries.
-/

namespace SmallC

variable (holds : Span → Prop)

mutual

/-- Something holds of every span of an expression. -/
def Expr.EverySpan : Expr → Prop
  | .literal written => holds written.span
  | .identifier name => holds name.span
  | .group span inner => holds span ∧ inner.EverySpan
  | .call span callee arguments =>
    holds span ∧ holds callee.span ∧ Expr.AllEverySpan arguments
  | .binary span _ opSpan left right =>
    holds span ∧ holds opSpan ∧ left.EverySpan ∧ right.EverySpan
  | .unary span _ opSpan operand => holds span ∧ holds opSpan ∧ operand.EverySpan
  | .step span _ _ target => holds span ∧ holds target.span
  | .assign span target op value =>
    holds span ∧ holds target.span ∧ (∀ entry ∈ op, holds entry.2) ∧ value.EverySpan

/-- Something holds of every span of a list of expressions. -/
def Expr.AllEverySpan : List Expr → Prop
  | [] => True
  | first :: others => first.EverySpan ∧ Expr.AllEverySpan others

end

/-- Something holds of every span of a declarator. -/
def Declarator.EverySpan (declarator : Declarator) : Prop :=
  holds declarator.span ∧ holds declarator.name.span ∧
    ∀ value ∈ declarator.initializer, value.EverySpan holds

/-- Something holds of every span of the first part of a `for` statement. -/
def ForInitializer.EverySpan : ForInitializer → Prop
  | .declaration declarators => ∀ declarator ∈ declarators, declarator.EverySpan holds
  | .expression value => value.EverySpan holds

mutual

/-- Something holds of every span of a statement. -/
def Stmt.EverySpan : Stmt → Prop
  | .declaration span declarators =>
    holds span ∧ ∀ declarator ∈ declarators, declarator.EverySpan holds
  | .expression span value => holds span ∧ value.EverySpan holds
  | .block span statements => holds span ∧ Stmt.AllEverySpan statements
  | .ifThen span condition positive =>
    holds span ∧ condition.EverySpan holds ∧ positive.EverySpan
  | .ifElse span condition positive negative =>
    holds span ∧ condition.EverySpan holds ∧ positive.EverySpan ∧ negative.EverySpan
  | .whileLoop span condition body => holds span ∧ condition.EverySpan holds ∧ body.EverySpan
  | .doWhile span body condition => holds span ∧ body.EverySpan ∧ condition.EverySpan holds
  | .forLoop span initializer test after body =>
    holds span ∧ (∀ first ∈ initializer, first.EverySpan holds) ∧
      (∀ value ∈ test, value.EverySpan holds) ∧ (∀ value ∈ after, value.EverySpan holds) ∧
      body.EverySpan
  | .breakLoop span => holds span
  | .continueLoop span => holds span
  | .returnValue span value => holds span ∧ ∀ result ∈ value, result.EverySpan holds
  | .empty span => holds span

/-- Something holds of every span of a list of statements. -/
def Stmt.AllEverySpan : List Stmt → Prop
  | [] => True
  | first :: others => first.EverySpan ∧ Stmt.AllEverySpan others

end

/-- Something holds of every span of a function. -/
structure FunctionDef.EverySpan (function : FunctionDef) : Prop where
  span : holds function.span
  name : holds function.name.span
  parameters : ∀ parameter ∈ function.parameters, holds parameter.span ∧ holds parameter.name.span
  body : holds function.body.span
  statements : Stmt.AllEverySpan holds function.body.statements

/-- Something holds of every span of a program, and of the end of its text. -/
structure Program.EverySpan (program : Program) : Prop where
  functions : ∀ function ∈ program.functions, function.EverySpan holds
  endOffset : holds (.point program.endOffset)

theorem Expr.EverySpan.ungrouped {holds : Span → Prop} :
    {value : Expr} → value.EverySpan holds → value.ungrouped.EverySpan holds
  | .group _ inner, every => show inner.ungrouped.EverySpan holds from every.2.ungrouped
  | .literal _, every | .identifier _, every | .call _ _ _, every | .binary _ _ _ _ _, every
  | .unary _ _ _ _, every | .step _ _ _ _, every | .assign _ _ _ _, every => every

end SmallC
