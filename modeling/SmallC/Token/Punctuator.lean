import SmallC.Operator

/-!
# Punctuators

Delimiters and operators as they stand in the text. Where several punctuators fit, the text is read
as the longest one, so `<<=` is one token. What a punctuator means depends on where it stands: a
minus may negate or subtract.
-/

namespace SmallC

/-- Delimiters and operators. -/
inductive Punctuator where
  | openParen
  | closeParen
  | openBrace
  | closeBrace
  | semicolon
  | comma
  | bang
  | tilde
  | plusPlus
  | minusMinus
  | minus
  | plus
  | asterisk
  | slash
  | percent
  | andAnd
  | orOr
  | caret
  | ampersand
  | bar
  | shiftLeft
  | shiftRight
  | equalEqual
  | notEqual
  | less
  | lessEqual
  | greater
  | greaterEqual
  | equal
  | plusEqual
  | minusEqual
  | asteriskEqual
  | slashEqual
  | percentEqual
  | caretEqual
  | ampersandEqual
  | barEqual
  | shiftLeftEqual
  | shiftRightEqual
  deriving DecidableEq, Repr

namespace Punctuator

/-- All punctuators, the longer before the shorter. -/
def all : List Punctuator :=
  [.shiftLeftEqual, .shiftRightEqual,
    .plusPlus, .minusMinus, .equalEqual, .notEqual, .lessEqual, .greaterEqual, .plusEqual,
    .minusEqual, .asteriskEqual, .slashEqual, .percentEqual, .ampersandEqual, .barEqual,
    .caretEqual, .shiftLeft, .shiftRight, .andAnd, .orOr,
    .openParen, .closeParen, .openBrace, .closeBrace, .semicolon, .comma, .bang, .tilde,
    .asterisk, .minus, .equal, .plus, .slash, .percent, .caret, .ampersand, .bar, .less,
    .greater]

/-- A punctuator as it is written. -/
def spelling : Punctuator → List Char
  | .openParen => ['(']
  | .closeParen => [')']
  | .openBrace => ['{']
  | .closeBrace => ['}']
  | .semicolon => [';']
  | .comma => [',']
  | .bang => ['!']
  | .tilde => ['~']
  | .plusPlus => ['+', '+']
  | .minusMinus => ['-', '-']
  | .minus => ['-']
  | .plus => ['+']
  | .asterisk => ['*']
  | .slash => ['/']
  | .percent => ['%']
  | .andAnd => ['&', '&']
  | .orOr => ['|', '|']
  | .caret => ['^']
  | .ampersand => ['&']
  | .bar => ['|']
  | .shiftLeft => ['<', '<']
  | .shiftRight => ['>', '>']
  | .equalEqual => ['=', '=']
  | .notEqual => ['!', '=']
  | .less => ['<']
  | .lessEqual => ['<', '=']
  | .greater => ['>']
  | .greaterEqual => ['>', '=']
  | .equal => ['=']
  | .plusEqual => ['+', '=']
  | .minusEqual => ['-', '=']
  | .asteriskEqual => ['*', '=']
  | .slashEqual => ['/', '=']
  | .percentEqual => ['%', '=']
  | .caretEqual => ['^', '=']
  | .ampersandEqual => ['&', '=']
  | .barEqual => ['|', '=']
  | .shiftLeftEqual => ['<', '<', '=']
  | .shiftRightEqual => ['>', '>', '=']

/-- The name of a punctuator in messages. -/
def name : Punctuator → String
  | .openParen => "OpenParen"
  | .closeParen => "CloseParen"
  | .openBrace => "OpenBrace"
  | .closeBrace => "CloseBrace"
  | .semicolon => "Semicolon"
  | .comma => "Comma"
  | .bang => "Bang"
  | .tilde => "Tilde"
  | .plusPlus => "PlusPlus"
  | .minusMinus => "MinusMinus"
  | .minus => "Minus"
  | .plus => "Plus"
  | .asterisk => "Asterisk"
  | .slash => "Divide"
  | .percent => "Modulus"
  | .andAnd => "LogicalAnd"
  | .orOr => "LogicalOr"
  | .caret => "BitwiseXor"
  | .ampersand => "BitwiseAnd"
  | .bar => "BitwiseOr"
  | .shiftLeft => "ShiftLeft"
  | .shiftRight => "ShiftRight"
  | .equalEqual => "DoubleEquals"
  | .notEqual => "NotEquals"
  | .less => "LessThan"
  | .lessEqual => "LessThanOrEqualTo"
  | .greater => "GreaterThan"
  | .greaterEqual => "GreaterThanOrEqualTo"
  | .equal => "Equals"
  | .plusEqual => "PlusEquals"
  | .minusEqual => "MinusEquals"
  | .asteriskEqual => "MultiplyEquals"
  | .slashEqual => "DivideEquals"
  | .percentEqual => "ModulusEquals"
  | .caretEqual => "BitwiseXorEquals"
  | .ampersandEqual => "BitwiseAndEquals"
  | .barEqual => "BitwiseOrEquals"
  | .shiftLeftEqual => "ShiftLeftEquals"
  | .shiftRightEqual => "ShiftRightEquals"

theorem mem_all (punctuator : Punctuator) : punctuator ∈ all := by
  cases punctuator <;> simp [all]

theorem spelling_ne_nil (punctuator : Punctuator) : punctuator.spelling ≠ [] := by
  cases punctuator <;> simp [spelling]

/-- The longest punctuator at the head of a text. -/
def longest? (text : List Char) : Option Punctuator :=
  all.find? fun punctuator => punctuator.spelling.isPrefixOf text

/-- A text starts with the punctuator read from it. -/
theorem append_of_longest? {text : List Char} {punctuator : Punctuator}
    (found : longest? text = some punctuator) :
    punctuator.spelling ++ text.drop punctuator.spelling.length = text := by
  have starts := List.find?_some found
  exact (List.prefix_iff_eq_append.mp (List.isPrefixOf_iff_prefix.mp starts))

/-! ## Meaning between and before operands -/

/-- The operator that a punctuator stands for between two operands. -/
def binaryOp? : Punctuator → Option BinaryOp
  | .plus => some (.arithmetic .add)
  | .minus => some (.arithmetic .subtract)
  | .asterisk => some (.arithmetic .multiply)
  | .slash => some (.arithmetic .divide)
  | .percent => some (.arithmetic .modulus)
  | .ampersand => some (.arithmetic .bitwiseAnd)
  | .bar => some (.arithmetic .bitwiseOr)
  | .caret => some (.arithmetic .bitwiseXor)
  | .shiftLeft => some (.arithmetic .shiftLeft)
  | .shiftRight => some (.arithmetic .shiftRight)
  | .equalEqual => some (.compare .equal)
  | .notEqual => some (.compare .notEqual)
  | .less => some (.compare .less)
  | .lessEqual => some (.compare .lessOrEqual)
  | .greater => some (.compare .greater)
  | .greaterEqual => some (.compare .greaterOrEqual)
  | .andAnd => some (.logical .and)
  | .orOr => some (.logical .or)
  | _ => none

/-- The assignment that a punctuator stands for: plain, or with an operator. -/
def assignment? : Punctuator → Option (Option ArithmeticOp)
  | .equal => some none
  | .plusEqual => some (some .add)
  | .minusEqual => some (some .subtract)
  | .asteriskEqual => some (some .multiply)
  | .slashEqual => some (some .divide)
  | .percentEqual => some (some .modulus)
  | .ampersandEqual => some (some .bitwiseAnd)
  | .barEqual => some (some .bitwiseOr)
  | .caretEqual => some (some .bitwiseXor)
  | .shiftLeftEqual => some (some .shiftLeft)
  | .shiftRightEqual => some (some .shiftRight)
  | _ => none

/-- The operator that a punctuator stands for before an operand. -/
def unaryOp? : Punctuator → Option UnaryOp
  | .bang => some .logicalNot
  | .tilde => some .bitwiseNot
  | .minus => some .negate
  | _ => none

/-- The step operator that a punctuator stands for beside a variable. -/
def stepOp? : Punctuator → Option StepOp
  | .plusPlus => some .increment
  | .minusMinus => some .decrement
  | _ => none

end Punctuator

/-! ## Operator classes -/

/-- Classes of punctuators that share a place in expressions. -/
inductive OperatorClass where
  | assignment
  | equality
  | relational
  | shift
  | term
  | factor
  | unary
  | step
  deriving DecidableEq, Repr

namespace OperatorClass

/-- All classes. -/
def all : List OperatorClass :=
  [.assignment, .equality, .relational, .shift, .term, .factor, .unary, .step]

/-- Whether a punctuator belongs to a class. -/
def includes : OperatorClass → Punctuator → Bool
  | .assignment, punctuator => punctuator.assignment?.isSome
  | .equality, punctuator => punctuator.binaryOp?.any (·.rank == 4)
  | .relational, punctuator => punctuator.binaryOp?.any (·.rank == 3)
  | .shift, punctuator => punctuator.binaryOp?.any (·.rank == 2)
  | .term, punctuator => punctuator.binaryOp?.any (·.rank == 1)
  | .factor, punctuator => punctuator.binaryOp?.any (·.rank == 0)
  | .unary, punctuator => punctuator.unaryOp?.isSome
  | .step, punctuator => punctuator.stepOp?.isSome

end OperatorClass

/-- The classes of a punctuator. -/
def Punctuator.classes (punctuator : Punctuator) : List OperatorClass :=
  OperatorClass.all.filter (·.includes punctuator)

end SmallC
