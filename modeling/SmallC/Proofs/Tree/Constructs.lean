import SmallC.Proofs.Semantics.Order
import SmallC.Proofs.Tree.Footprint

/-!
# Constructs of a tree

The footprint of a tree is a sum over the constructs in it, at whatever depth they stand: each
statement and each expression takes a number of symbols and blocks that depends on its kind alone.
-/

namespace SmallC

/-! ## Statements in a statement -/

mutual

/-- A statement and all statements in it. -/
def Stmt.within : Stmt → List Stmt
  | .declaration span declarators => [.declaration span declarators]
  | .expression span value => [.expression span value]
  | .block span statements => .block span statements :: Stmt.withinAll statements
  | .ifThen span condition positive => .ifThen span condition positive :: positive.within
  | .ifElse span condition positive negative =>
    .ifElse span condition positive negative :: (positive.within ++ negative.within)
  | .whileLoop span condition body => .whileLoop span condition body :: body.within
  | .doWhile span body condition => .doWhile span body condition :: body.within
  | .forLoop span initializer test after body =>
    .forLoop span initializer test after body :: body.within
  | .breakLoop span => [.breakLoop span]
  | .continueLoop span => [.continueLoop span]
  | .returnValue span value => [.returnValue span value]
  | .empty span => [.empty span]

/-- All statements in a list of statements. -/
def Stmt.withinAll : List Stmt → List Stmt
  | [] => []
  | first :: others => first.within ++ Stmt.withinAll others

end

/-! ## Kinds of constructs -/

/-- Whether the value of an expression is put into a new temporary. -/
def Expr.takesTemporary : Expr → Bool
  | .literal _ => true
  | .call _ _ _ => true
  | .binary _ _ _ _ _ => true
  | .unary _ _ _ _ => true
  | .step _ _ _ _ => true
  | _ => false

/-- Whether an expression is an `&&` or an `||`. -/
def Expr.isLogical : Expr → Bool
  | .binary _ (.logical _) _ _ _ => true
  | _ => false

/-- The blocks that a statement takes beside those of its parts. -/
def Stmt.blockCount : Stmt → Nat
  | .ifThen _ _ _ => 2
  | .ifElse _ _ _ _ => 3
  | .whileLoop _ _ _ => 3
  | .doWhile _ _ _ => 3
  | .forLoop _ _ _ none _ => 3
  | .forLoop _ _ _ (some _) _ => 4
  | _ => 0

/-- The variables that a statement declares itself. -/
def Stmt.declarators : Stmt → List Declarator
  | .declaration _ declarators => declarators
  | .forLoop _ (some (.declaration declarators)) _ _ _ => declarators
  | _ => []

/-! ## Sums -/

/-- What expressions take, without the expressions in them. -/
def Footprint.ofExpressions (values : List Expr) : Footprint :=
  ⟨values.countP Expr.takesTemporary, 3 * values.countP Expr.isLogical⟩

/-- What statements take, without the expressions and the statements in them. -/
def Footprint.ofStatements (statements : List Stmt) : Footprint :=
  ⟨(statements.flatMap Stmt.declarators).length, (statements.map Stmt.blockCount).sum⟩

namespace Footprint

@[simp]
theorem ofExpressions_nil : ofExpressions [] = 0 :=
  rfl

@[simp]
theorem ofExpressions_append (first second : List Expr) :
    ofExpressions (first ++ second) = ofExpressions first + ofExpressions second := by
  ext <;> simp [ofExpressions, Nat.mul_add]

@[simp]
theorem ofExpressions_cons (value : Expr) (others : List Expr) :
    ofExpressions (value :: others) = ofExpressions [value] + ofExpressions others :=
  ofExpressions_append [value] others

@[simp]
theorem ofStatements_append (first second : List Stmt) :
    ofStatements (first ++ second) = ofStatements first + ofStatements second := by
  ext <;> simp [ofStatements]

@[simp]
theorem ofStatements_cons (statement : Stmt) (others : List Stmt) :
    ofStatements (statement :: others) = ofStatements [statement] + ofStatements others :=
  ofStatements_append [statement] others

end Footprint

open Footprint

mutual

/-- What an expression takes, as a sum over all expressions in it. -/
theorem Expr.footprint_eq (value : Expr) : value.footprint = ofExpressions value.parts := by
  cases value with
  | literal _ | identifier _ | step _ _ _ _ => rfl
  | group span inner =>
    have here : ofExpressions [.group span inner] = 0 := rfl
    rw [Expr.footprint, Expr.footprint_eq inner, Expr.parts, ofExpressions_cons, here, zero_add]
  | call span callee arguments =>
    have here : ofExpressions [.call span callee arguments] = .symbol := rfl
    rw [Expr.footprint, Expr.footprintOfAll_eq arguments, Expr.parts, ofExpressions_cons, here]
  | binary span op opSpan left right =>
    have here : ofExpressions [.binary span op opSpan left right] =
        .symbol + .ofBlocks op.blockCount := by
      cases op <;> rfl
    rw [Expr.footprint, Expr.footprint_eq left, Expr.footprint_eq right, Expr.parts,
      ofExpressions_cons, ofExpressions_append, here]
    abel
  | unary span op opSpan operand =>
    have here : ofExpressions [.unary span op opSpan operand] = .symbol := rfl
    rw [Expr.footprint, Expr.footprint_eq operand, Expr.parts, ofExpressions_cons, here]
    abel
  | assign span target op assigned =>
    have here : ofExpressions [.assign span target op assigned] = 0 := rfl
    rw [Expr.footprint, Expr.footprint_eq assigned, Expr.parts, ofExpressions_cons, here, zero_add]

theorem Expr.footprintOfAll_eq (values : List Expr) :
    Expr.footprintOfAll values = ofExpressions (Expr.partsOfAll values) := by
  cases values with
  | nil => rfl
  | cons first others =>
    rw [Expr.footprintOfAll, Expr.footprint_eq first, Expr.footprintOfAll_eq others,
      Expr.partsOfAll, ofExpressions_append]

end

theorem Expr.footprintOfOption_eq (value : Option Expr) :
    Expr.footprintOfOption value = ofExpressions (Expr.partsOfOption value) := by
  cases value with
  | none => rfl
  | some value => exact value.footprint_eq

theorem Declarator.footprintOfAll_eq (span : Span) (declarators : List Declarator) :
    Declarator.footprintOfAll declarators =
      ofStatements [.declaration span declarators] +
        ofExpressions (Declarator.parts declarators) := by
  induction declarators with
  | nil => rfl
  | cons first others ih =>
    have here : ofStatements [.declaration span (first :: others)] =
        .symbol + ofStatements [.declaration span others] := by
      ext <;> simp [ofStatements, Stmt.declarators, Stmt.blockCount, Nat.add_comm]
    rw [Declarator.footprintOfAll, Declarator.footprint, Expr.footprintOfOption_eq, ih,
      Declarator.parts, ofExpressions_append, here]
    abel

/-- What a `for` statement takes itself: what its declaration takes, and its blocks. -/
theorem ForInitializer.footprint_eq (span : Span) (initializer : Option ForInitializer)
    (test after : Option Expr) (body : Stmt) :
    ForInitializer.footprint initializer + .ofBlocks 3 + ForInitializer.footprintAfter after =
      ofStatements [.forLoop span initializer test after body] +
        ofExpressions (ForInitializer.parts initializer) +
          ofExpressions (Expr.partsOfOption after) := by
  have blocks : ofStatements [.forLoop span none test after body] +
      ofExpressions (Expr.partsOfOption after) =
        .ofBlocks 3 + ForInitializer.footprintAfter after := by
    cases after with
    | none => rfl
    | some value =>
      have here : ofStatements [.forLoop span none test (some value) body] =
          .ofBlocks 3 + .ofBlocks 1 := rfl
      rw [ForInitializer.footprintAfter, here, value.footprint_eq, Expr.partsOfOption, add_assoc]
  have declared (declarators : List Declarator) :
      ofStatements [.forLoop span (some (.declaration declarators)) test after body] =
        ofStatements [.declaration span declarators] +
          ofStatements [.forLoop span none test after body] := by
    cases after <;> ext <;> simp [ofStatements, Stmt.declarators, Stmt.blockCount]
  rcases initializer with _ | declarators | value
  · rw [ForInitializer.footprint, ForInitializer.parts, ofExpressions_nil, add_zero, zero_add]
    exact blocks.symm
  · rw [ForInitializer.footprint, ForInitializer.parts,
      Declarator.footprintOfAll_eq span declarators, declared, add_assoc, ← blocks]
    abel
  · have here : ofStatements [.forLoop span (some (.expression value)) test after body] =
        ofStatements [.forLoop span none test after body] := by
      cases after <;> rfl
    rw [ForInitializer.footprint, ForInitializer.parts, value.footprint_eq, here, add_assoc,
      ← blocks]
    abel

mutual

/-- What a statement takes, as a sum over all statements and expressions in it. -/
theorem Stmt.footprint_eq (statement : Stmt) :
    statement.footprint = ofStatements statement.within + ofExpressions statement.parts := by
  cases statement with
  | declaration span declarators => exact Declarator.footprintOfAll_eq span declarators
  | expression span value =>
    have here : ofStatements [.expression span value] = 0 := rfl
    rw [Stmt.footprint, value.footprint_eq, Stmt.within, Stmt.parts, here, zero_add]
  | block span statements =>
    have here : ofStatements [.block span statements] = 0 := rfl
    rw [Stmt.footprint, Stmt.footprintOfAll_eq statements, Stmt.within, Stmt.parts,
      ofStatements_cons, here, zero_add]
  | ifThen span condition positive =>
    have here : ofStatements [.ifThen span condition positive] = .ofBlocks 2 := rfl
    rw [Stmt.footprint, condition.footprint_eq, Stmt.footprint_eq positive, Stmt.within,
      Stmt.parts, ofStatements_cons, ofExpressions_append, here]
    abel
  | ifElse span condition positive negative =>
    have here : ofStatements [.ifElse span condition positive negative] = .ofBlocks 3 := rfl
    rw [Stmt.footprint, condition.footprint_eq, Stmt.footprint_eq positive,
      Stmt.footprint_eq negative, Stmt.within, Stmt.parts, ofStatements_cons,
      ofStatements_append, ofExpressions_append, ofExpressions_append, here]
    abel
  | whileLoop span condition body =>
    have here : ofStatements [.whileLoop span condition body] = .ofBlocks 3 := rfl
    rw [Stmt.footprint, condition.footprint_eq, Stmt.footprint_eq body, Stmt.within,
      Stmt.parts, ofStatements_cons, ofExpressions_append, here]
    abel
  | doWhile span body condition =>
    have here : ofStatements [.doWhile span body condition] = .ofBlocks 3 := rfl
    rw [Stmt.footprint, condition.footprint_eq, Stmt.footprint_eq body, Stmt.within,
      Stmt.parts, ofStatements_cons, ofExpressions_append, here]
    abel
  | forLoop span initializer test after body =>
    have here := ForInitializer.footprint_eq span initializer test after body
    rw [Stmt.footprint, Expr.footprintOfOption_eq, Stmt.footprint_eq body, Stmt.within,
      Stmt.parts, ofStatements_cons, ofExpressions_append, ofExpressions_append,
      ofExpressions_append]
    calc
      _ = (ForInitializer.footprint initializer + .ofBlocks 3 +
            ForInitializer.footprintAfter after) + ofExpressions (Expr.partsOfOption test) +
              (ofStatements body.within + ofExpressions body.parts) := by
        abel
      _ = _ := by
        rw [here]
        abel
  | breakLoop _ | continueLoop _ | empty _ => rfl
  | returnValue span value =>
    have here : ofStatements [.returnValue span value] = 0 := rfl
    rw [Stmt.footprint, Expr.footprintOfOption_eq, Stmt.within, Stmt.parts, here, zero_add]

theorem Stmt.footprintOfAll_eq (statements : List Stmt) :
    Stmt.footprintOfAll statements =
      ofStatements (Stmt.withinAll statements) + ofExpressions (Stmt.partsOfAll statements) := by
  cases statements with
  | nil => rfl
  | cons first others =>
    rw [Stmt.footprintOfAll, Stmt.footprint_eq first, Stmt.footprintOfAll_eq others,
      Stmt.withinAll, Stmt.partsOfAll, ofStatements_append, ofExpressions_append]
    abel

end

/-! ## Constructs of a function -/

namespace FunctionDef

variable (function : FunctionDef)

/-- All statements in the body of a function. -/
def statements : List Stmt :=
  Stmt.withinAll function.body.statements

/-- All expressions in the body of a function. -/
def expressions : List Expr :=
  Stmt.partsOfAll function.body.statements

/-- All variables that are declared in the body of a function. -/
def declarators : List Declarator :=
  function.statements.flatMap Stmt.declarators

end FunctionDef

end SmallC
