/-!
# Operators

The operators of the language by what they compute. Arithmetic operators are those that a compound
assignment may use; comparisons give zero or one; the logical operators decide whether their right
operand is evaluated at all.
-/

namespace SmallC

/-- Operators on two numbers, which also occur in compound assignments. -/
inductive ArithmeticOp where
  | add
  | subtract
  | multiply
  | divide
  | modulus
  | bitwiseAnd
  | bitwiseOr
  | bitwiseXor
  | shiftLeft
  | shiftRight
  deriving DecidableEq, Repr

/-- Operators that compare two numbers. -/
inductive CompareOp where
  | equal
  | notEqual
  | less
  | lessOrEqual
  | greater
  | greaterOrEqual
  deriving DecidableEq, Repr

/-- Operators that evaluate their right operand only when the left one does not decide. -/
inductive LogicalOp where
  | and
  | or
  deriving DecidableEq, Repr

/-- The operators that stand between two operands. -/
inductive BinaryOp where
  | arithmetic (op : ArithmeticOp)
  | compare (op : CompareOp)
  | logical (op : LogicalOp)
  deriving DecidableEq, Repr

/-- The operators that stand before one operand. -/
inductive UnaryOp where
  | logicalNot
  | bitwiseNot
  | negate
  deriving DecidableEq, Repr

/-- The two ways to change a variable by one. -/
inductive StepOp where
  | increment
  | decrement
  deriving DecidableEq, Repr

/-- On which side of its variable a step operator stands. -/
inductive Fixity where
  | before
  | after
  deriving DecidableEq, Repr

namespace ArithmeticOp

/-- All arithmetic operators. -/
def all : List ArithmeticOp :=
  [.add, .subtract, .multiply, .divide, .modulus, .bitwiseAnd, .bitwiseOr, .bitwiseXor,
    .shiftLeft, .shiftRight]

/-- An arithmetic operator as it is written between two operands. -/
def spelling : ArithmeticOp → String
  | .add => "+"
  | .subtract => "-"
  | .multiply => "*"
  | .divide => "/"
  | .modulus => "%"
  | .bitwiseAnd => "&"
  | .bitwiseOr => "|"
  | .bitwiseXor => "^"
  | .shiftLeft => "<<"
  | .shiftRight => ">>"

/-- The name of the operator of a compound assignment. -/
def name : ArithmeticOp → String
  | .add => "Add"
  | .subtract => "Subtract"
  | .multiply => "Multiply"
  | .divide => "Divide"
  | .modulus => "Modulus"
  | .bitwiseAnd => "BitwiseAnd"
  | .bitwiseOr => "BitwiseOr"
  | .bitwiseXor => "BitwiseXor"
  | .shiftLeft => "ShiftLeft"
  | .shiftRight => "ShiftRight"

/-- The arithmetic operator of a given name. -/
def ofName? (name : String) : Option ArithmeticOp :=
  all.find? (·.name == name)

theorem mem_all (op : ArithmeticOp) : op ∈ all := by
  cases op <;> simp [all]

end ArithmeticOp

namespace CompareOp

/-- All comparisons. -/
def all : List CompareOp :=
  [.equal, .notEqual, .less, .lessOrEqual, .greater, .greaterOrEqual]

/-- A comparison as it is written. -/
def spelling : CompareOp → String
  | .equal => "=="
  | .notEqual => "!="
  | .less => "<"
  | .lessOrEqual => "<="
  | .greater => ">"
  | .greaterOrEqual => ">="

theorem mem_all (op : CompareOp) : op ∈ all := by
  cases op <;> simp [all]

end CompareOp

/-- A logical operator as it is written. -/
def LogicalOp.spelling : LogicalOp → String
  | .and => "&&"
  | .or => "||"

namespace BinaryOp

/-- All operators that stand between two operands. -/
def all : List BinaryOp :=
  ArithmeticOp.all.map .arithmetic ++ CompareOp.all.map .compare ++
    [.logical .and, .logical .or]

/-- A binary operator as it is written. -/
def spelling : BinaryOp → String
  | .arithmetic op => op.spelling
  | .compare op => op.spelling
  | .logical op => op.spelling

/-- How loosely an operator binds. An operand of rank `r` may hold operators of rank below `r`
without parentheses. -/
def rank : BinaryOp → Nat
  | .arithmetic .multiply => 0
  | .arithmetic .divide => 0
  | .arithmetic .modulus => 0
  | .arithmetic .add => 1
  | .arithmetic .subtract => 1
  | .arithmetic .shiftLeft => 2
  | .arithmetic .shiftRight => 2
  | .compare .less => 3
  | .compare .lessOrEqual => 3
  | .compare .greater => 3
  | .compare .greaterOrEqual => 3
  | .compare .equal => 4
  | .compare .notEqual => 4
  | .arithmetic .bitwiseAnd => 5
  | .arithmetic .bitwiseXor => 6
  | .arithmetic .bitwiseOr => 7
  | .logical .and => 8
  | .logical .or => 9

/-- The number of ranks. -/
def rankCount : Nat :=
  10

/-- The binary operator with a given spelling. -/
def ofSpelling? (text : String) : Option BinaryOp :=
  all.find? (·.spelling == text)

theorem mem_all (op : BinaryOp) : op ∈ all := by
  rcases op with op | op | op
  · simp [all, ArithmeticOp.mem_all]
  · simp [all, CompareOp.mem_all]
  · cases op <;> simp [all]

theorem rank_lt_rankCount (op : BinaryOp) : op.rank < rankCount := by
  rcases op with op | op | op <;> cases op <;> simp [rank, rankCount]

end BinaryOp

namespace UnaryOp

/-- All operators that stand before one operand. -/
def all : List UnaryOp :=
  [.logicalNot, .bitwiseNot, .negate]

/-- A unary operator as it is written. -/
def spelling : UnaryOp → String
  | .logicalNot => "!"
  | .bitwiseNot => "~"
  | .negate => "-"

/-- The unary operator with a given spelling. -/
def ofSpelling? (text : String) : Option UnaryOp :=
  all.find? (·.spelling == text)

theorem mem_all (op : UnaryOp) : op ∈ all := by
  cases op <;> simp [all]

end UnaryOp

end SmallC
