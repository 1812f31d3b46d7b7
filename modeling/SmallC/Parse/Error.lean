import SmallC.Token

/-!
# Syntax errors

Why a text is no program, and how that is said.
-/

namespace SmallC

/-- What a reader may be waiting for when the text ends. -/
inductive Expected where
  | token (kind : TokenKind)
  | returnType
  | statementOrBrace
  | statement
  | semicolonOrExpression
  | forInitializer
  | forTest
  | forStep
  | expression
  | operand
  deriving DecidableEq, Repr

/-- An expectation in words. -/
def Expected.describe : Expected → String
  | .token kind => kind.name
  | .returnType => "function return type"
  | .statementOrBrace => "statement or closing brace"
  | .statement => "statement"
  | .semicolonOrExpression => "semicolon or expression"
  | .forInitializer => "for loop initializer"
  | .forTest => "for loop test"
  | .forStep => "for loop increment"
  | .expression => "expression"
  | .operand => "identifier, literal, or open paren"

/-- Why a text is no program. -/
inductive SyntaxCause where
  | lexical (cause : LexicalError)
  | endOfText (expected : Expected)
  | mismatch (expected found : TokenKind) (text : String)
  | notAFunction (found : TokenKind) (text : String)
  | notAnExpression (found : TokenKind) (text : String)
  | integerRange (text : String)
  | assignmentTarget
  | declarationAsBody
  deriving DecidableEq, Repr

/-- The text of a syntax error. -/
def SyntaxCause.message : SyntaxCause → String
  | .lexical cause => cause.message
  | .endOfText expected => "Expected " ++ expected.describe ++ " but reached end of file"
  | .mismatch expected found text =>
    "Expected " ++ expected.name ++ " but found " ++ found.name ++ " (" ++ text ++ ")"
  | .notAFunction found text =>
    "Expected function definition but found: " ++ text ++ " (" ++ found.name ++ ")"
  | .notAnExpression found text =>
    "Expected expression but found " ++ found.name ++ " (" ++ text ++ ")"
  | .integerRange text => "Integer literal " ++ text ++ " does not fit in an int"
  | .assignmentTarget => "The left-hand side of an assignment must be a variable"
  | .declarationAsBody => "A declaration is not allowed as the body of a control statement"

/-- A syntax error and its place. -/
structure SyntaxError where
  cause : SyntaxCause
  span : Span
  deriving DecidableEq, Repr

/-- The text of a syntax error. -/
def SyntaxError.message (error : SyntaxError) : String :=
  error.cause.message

/-- A failure to read part of a program. A failure without a span is at the end of the text. -/
structure ParseFailure where
  cause : SyntaxCause
  span? : Option Span
  deriving DecidableEq, Repr

namespace ParseFailure

/-- A failure at a span. -/
def located (span : Span) (cause : SyntaxCause) : ParseFailure :=
  ⟨cause, some span⟩

/-- A failure because the text ends too early. -/
def atEnd (expected : Expected) : ParseFailure :=
  ⟨.endOfText expected, none⟩

/-- A failure because the text goes on with something that is no token. -/
def ofMalformed (malformed : Malformed) : ParseFailure :=
  .located malformed.span (.lexical malformed.cause)

/-- The syntax error that a failure is in a text whose end is at a byte offset. -/
def locate (endOffset : Nat) (failure : ParseFailure) : SyntaxError :=
  ⟨failure.cause, failure.span?.getD (.point endOffset)⟩

end ParseFailure

end SmallC
