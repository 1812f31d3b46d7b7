import Mathlib
import SmallC.Tree

/-!
# How much of a graph a program takes

The number of symbols and blocks in the graph of a function can be read off its tree: a symbol for
every parameter, variable and value that is not a variable, and a few blocks for every place where
control can go two ways.
-/

namespace SmallC

/-- Numbers of symbols and blocks. -/
@[ext]
structure Footprint where
  symbols : Nat
  blocks : Nat
  deriving DecidableEq, Repr

namespace Footprint

instance : Zero Footprint :=
  ⟨⟨0, 0⟩⟩

instance : Add Footprint :=
  ⟨fun first second => ⟨first.symbols + second.symbols, first.blocks + second.blocks⟩⟩

/-- One symbol. -/
def symbol : Footprint :=
  ⟨1, 0⟩

/-- A number of blocks. -/
def ofBlocks (count : Nat) : Footprint :=
  ⟨0, count⟩

@[simp]
theorem symbols_zero : (0 : Footprint).symbols = 0 :=
  rfl

@[simp]
theorem blocks_zero : (0 : Footprint).blocks = 0 :=
  rfl

@[simp]
theorem symbols_add (first second : Footprint) :
    (first + second).symbols = first.symbols + second.symbols :=
  rfl

@[simp]
theorem blocks_add (first second : Footprint) :
    (first + second).blocks = first.blocks + second.blocks :=
  rfl

@[simp]
theorem symbols_symbol : symbol.symbols = 1 :=
  rfl

@[simp]
theorem blocks_symbol : symbol.blocks = 0 :=
  rfl

@[simp]
theorem symbols_ofBlocks (count : Nat) : (ofBlocks count).symbols = 0 :=
  rfl

@[simp]
theorem blocks_ofBlocks (count : Nat) : (ofBlocks count).blocks = count :=
  rfl

instance : AddCommMonoid Footprint where
  add_assoc _ _ _ := Footprint.ext (Nat.add_assoc _ _ _) (Nat.add_assoc _ _ _)
  zero_add _ := Footprint.ext (Nat.zero_add _) (Nat.zero_add _)
  add_zero _ := Footprint.ext (Nat.add_zero _) (Nat.add_zero _)
  add_comm _ _ := Footprint.ext (Nat.add_comm _ _) (Nat.add_comm _ _)
  nsmul := nsmulRec

end Footprint

/-! ## Expressions -/

/-- The blocks that an operator takes beside those of its operands. -/
def BinaryOp.blockCount : BinaryOp → Nat
  | .logical _ => 3
  | _ => 0

mutual

/-- What an expression takes. Only variables are used where they are. -/
def Expr.footprint : Expr → Footprint
  | .literal _ => .symbol
  | .identifier _ => 0
  | .group _ inner => inner.footprint
  | .call _ _ arguments => .symbol + Expr.footprintOfAll arguments
  | .binary _ op _ left right =>
    .symbol + .ofBlocks op.blockCount + left.footprint + right.footprint
  | .unary _ _ _ operand => operand.footprint + .symbol
  | .step _ _ _ _ => .symbol
  | .assign _ _ _ value => value.footprint

/-- What expressions take together. -/
def Expr.footprintOfAll : List Expr → Footprint
  | [] => 0
  | first :: others => first.footprint + Expr.footprintOfAll others

end

/-- What an expression that may be missing takes. -/
def Expr.footprintOfOption : Option Expr → Footprint
  | none => 0
  | some value => value.footprint

/-! ## Statements -/

/-- What a variable of a declaration takes. -/
def Declarator.footprint (declarator : Declarator) : Footprint :=
  .symbol + Expr.footprintOfOption declarator.initializer

/-- What the variables of a declaration take together. -/
def Declarator.footprintOfAll : List Declarator → Footprint
  | [] => 0
  | first :: others => first.footprint + Declarator.footprintOfAll others

/-- What a `for` statement takes for what it does before its loop. -/
def ForInitializer.footprint : Option ForInitializer → Footprint
  | none => 0
  | some (.declaration declarators) => Declarator.footprintOfAll declarators
  | some (.expression value) => value.footprint

/-- What a `for` statement takes for what it does after its body. -/
def ForInitializer.footprintAfter : Option Expr → Footprint
  | none => 0
  | some value => .ofBlocks 1 + value.footprint

mutual

/-- What a statement takes. -/
def Stmt.footprint : Stmt → Footprint
  | .declaration _ declarators => Declarator.footprintOfAll declarators
  | .expression _ value => value.footprint
  | .block _ statements => Stmt.footprintOfAll statements
  | .ifThen _ condition positive => condition.footprint + .ofBlocks 2 + positive.footprint
  | .ifElse _ condition positive negative =>
    condition.footprint + .ofBlocks 3 + positive.footprint + negative.footprint
  | .whileLoop _ condition body => .ofBlocks 3 + condition.footprint + body.footprint
  | .doWhile _ body condition => .ofBlocks 3 + body.footprint + condition.footprint
  | .forLoop _ initializer test after body =>
    ForInitializer.footprint initializer + .ofBlocks 3 + Expr.footprintOfOption test +
      body.footprint + ForInitializer.footprintAfter after
  | .breakLoop _ => 0
  | .continueLoop _ => 0
  | .returnValue _ value => Expr.footprintOfOption value
  | .empty _ => 0

/-- What statements take together. -/
def Stmt.footprintOfAll : List Stmt → Footprint
  | [] => 0
  | first :: others => first.footprint + Stmt.footprintOfAll others

end

/-- What a function takes: its parameters, its first block and its body. -/
def FunctionDef.footprint (function : FunctionDef) : Footprint :=
  ⟨function.parameters.length, 1⟩ + Stmt.footprintOfAll function.body.statements

end SmallC
