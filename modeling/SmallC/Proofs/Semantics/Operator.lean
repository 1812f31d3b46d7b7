import Mathlib
import SmallC.Operator

/-!
# Meaning of operators

What the operators compute on 32-bit numbers.  Sums, differences and products wrap around, shifts
count modulo 32, and comparisons give zero or one.  A division faults when its quotient does not
exist or has no 32 bits.
-/

namespace SmallC

/-- The number of a truth value. -/
def truth (holds : Bool) : Int32 :=
  if holds then 1 else 0

/-- Whether a quotient of two numbers exists and fits into 32 bits. -/
def divides (left right : Int32) : Bool :=
  right != 0 && !(left == Int32.minValue && right == -1)

/-- The result of an arithmetic operator, unless it faults. -/
def ArithmeticOp.apply (op : ArithmeticOp) (left right : Int32) : Option Int32 :=
  match op with
  | .add => some (left + right)
  | .subtract => some (left - right)
  | .multiply => some (left * right)
  | .divide => if divides left right then some (left / right) else none
  | .modulus => if divides left right then some (left % right) else none
  | .bitwiseAnd => some (left &&& right)
  | .bitwiseOr => some (left ||| right)
  | .bitwiseXor => some (left ^^^ right)
  | .shiftLeft => some (left <<< right)
  | .shiftRight => some (left >>> right)

/-- Whether a comparison holds. -/
def CompareOp.holds (op : CompareOp) (left right : Int32) : Bool :=
  match op with
  | .equal => left == right
  | .notEqual => left != right
  | .less => left < right
  | .lessOrEqual => left ≤ right
  | .greater => right < left
  | .greaterOrEqual => right ≤ left

/-- The result of a comparison. -/
def CompareOp.apply (op : CompareOp) (left right : Int32) : Int32 :=
  truth (op.holds left right)

/-- The result of an operator that stands before its operand. -/
def UnaryOp.apply (op : UnaryOp) (operand : Int32) : Int32 :=
  match op with
  | .logicalNot => truth (operand == 0)
  | .bitwiseNot => ~~~operand
  | .negate => -operand

/-- The value of a variable after a step. -/
def StepOp.apply (op : StepOp) (value : Int32) : Int32 :=
  match op with
  | .increment => value + 1
  | .decrement => value - 1

/-- The value of a logical operator that its left operand decides, if it does. -/
def LogicalOp.decided? (op : LogicalOp) (left : Int32) : Option Int32 :=
  match op with
  | .and => if left = 0 then some 0 else none
  | .or => if left = 0 then none else some 1

end SmallC
