import Mathlib
import SmallC.Token.Piece
import SmallC.Text.Digits
import SmallC.Tree

/-!
# Well-formed trees

A tree can hold more than a text can say: names that are no words, literals that denote nothing, a
declaration where only one statement may stand.  The trees of texts are well-formed, and what comes
after parsing relies on that: names of variables never look like names of temporaries, every literal
has a value, and the body of a control statement declares nothing.
-/

namespace SmallC

/-! ## Names and literals -/

/-- Whether a text is a word: a letter or an underscore, then letters, underscores and digits. -/
def isWord (text : String) : Bool :=
  match text.toList with
  | [] => false
  | first :: others => Piece.isWordStart first && others.all Piece.isWordChar

/-- Whether a text is a character literal: a quote, and after it one character and a quote. -/
def isCharLiteral (text : String) : Prop :=
  ∃ body, text.toList = '\'' :: (Piece.charBody body).chars ∧
    (Piece.charBody body).closed = true ∧ (Piece.charBody body).count = 1

/-- An integer literal is a nonempty string of digits of at most the magnitude of the least number,
and a character literal stands in quotes. -/
def Literal.WellFormed (literal : Literal) : Prop :=
  match literal.kind with
  | .integer =>
    literal.text.toList ≠ [] ∧ literal.text.toList.all Char.isDigit = true ∧
      Text.digitsValue literal.text.toList ≤ 2 ^ 31
  | .character => isCharLiteral literal.text

/-- A name is a word. -/
def Ident.WellFormed (ident : Ident) : Prop :=
  isWord ident.name = true

/-! ## Expressions -/

mutual

/-- All names and literals of an expression are well-formed. -/
def Expr.WellFormed : Expr → Prop
  | .literal written => written.WellFormed
  | .identifier name => name.WellFormed
  | .group _ inner => inner.WellFormed
  | .call _ callee arguments => callee.WellFormed ∧ Expr.AllWellFormed arguments
  | .binary _ _ _ left right => left.WellFormed ∧ right.WellFormed
  | .unary _ _ _ operand => operand.WellFormed
  | .step _ _ _ target => target.WellFormed
  | .assign _ target _ value => target.WellFormed ∧ value.WellFormed

/-- All expressions of a list are well-formed. -/
def Expr.AllWellFormed : List Expr → Prop
  | [] => True
  | first :: others => first.WellFormed ∧ Expr.AllWellFormed others

end

/-- An expression that may be missing is well-formed where it is not. -/
def Expr.OptionWellFormed : Option Expr → Prop
  | none => True
  | some value => value.WellFormed

/-! ## Statements -/

/-- The name and the initial value of a declared variable are well-formed. -/
def Declarator.WellFormed (declarator : Declarator) : Prop :=
  declarator.name.WellFormed ∧ Expr.OptionWellFormed declarator.initializer

/-- What a `for` statement does before its loop is well-formed. -/
def ForInitializer.WellFormed : Option ForInitializer → Prop
  | none => True
  | some (.declaration declarators) => ∀ declarator ∈ declarators, declarator.WellFormed
  | some (.expression value) => value.WellFormed

/-- Whether a statement declares variables in the scope around it. -/
def Stmt.isDeclaration : Stmt → Bool
  | .declaration _ _ => true
  | _ => false

mutual

/-- All parts of a statement are well-formed, and no body of a control statement is a
declaration. -/
def Stmt.WellFormed : Stmt → Prop
  | .declaration _ declarators => ∀ declarator ∈ declarators, declarator.WellFormed
  | .expression _ value => value.WellFormed
  | .block _ statements => Stmt.AllWellFormed statements
  | .ifThen _ condition positive =>
    condition.WellFormed ∧ positive.WellFormed ∧ positive.isDeclaration = false
  | .ifElse _ condition positive negative =>
    condition.WellFormed ∧ (positive.WellFormed ∧ positive.isDeclaration = false) ∧
      negative.WellFormed ∧ negative.isDeclaration = false
  | .whileLoop _ condition body =>
    condition.WellFormed ∧ body.WellFormed ∧ body.isDeclaration = false
  | .doWhile _ body condition =>
    (body.WellFormed ∧ body.isDeclaration = false) ∧ condition.WellFormed
  | .forLoop _ initializer test after body =>
    ForInitializer.WellFormed initializer ∧ Expr.OptionWellFormed test ∧
      Expr.OptionWellFormed after ∧ body.WellFormed ∧ body.isDeclaration = false
  | .breakLoop _ => True
  | .continueLoop _ => True
  | .returnValue _ value => Expr.OptionWellFormed value
  | .empty _ => True

/-- All statements of a list are well-formed. -/
def Stmt.AllWellFormed : List Stmt → Prop
  | [] => True
  | first :: others => first.WellFormed ∧ Stmt.AllWellFormed others

end

/-! ## Programs -/

/-- The names and the body of a function are well-formed. -/
structure FunctionDef.WellFormed (function : FunctionDef) : Prop where
  name : function.name.WellFormed
  parameters : ∀ parameter ∈ function.parameters, parameter.name.WellFormed
  body : Stmt.AllWellFormed function.body.statements

/-- All functions of a program are well-formed. -/
def Program.WellFormed (program : Program) : Prop :=
  ∀ function ∈ program.functions, function.WellFormed

end SmallC
