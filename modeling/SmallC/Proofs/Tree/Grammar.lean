import SmallC.Proofs.Tree.WellFormed

/-!
# Trees of the grammar

A tree is grammatical when it can be written without adding parentheses: every operand binds tightly
enough for the place where it stands, and no `else` would be taken by an `if` inside.  Two trees are
the same up to spans when nothing is left to tell them apart once their spans are erased.
-/

namespace SmallC

/-! ## Expressions -/

/-- A name is a word that is not reserved. -/
def Ident.Grammatical (name : Ident) : Prop :=
  isWord name.name = true ∧ Keyword.ofSpelling? name.name.toList = none

/-- The largest value that an integer literal may have where no minus sign stands before it. -/
def largestLiteral : Nat :=
  2 ^ 31 - 1

/-- The largest value of an integer literal right after an operator. -/
def UnaryOp.largestOperand : UnaryOp → Nat
  | .negate => 2 ^ 31
  | _ => largestLiteral

theorem UnaryOp.largestLiteral_le (op : UnaryOp) : largestLiteral ≤ op.largestOperand := by
  cases op <;> decide

/-- An integer literal is a nonempty string of digits whose value is within a limit, and a character
literal stands in quotes. -/
def Literal.Grammatical (limit : Nat) (literal : Literal) : Prop :=
  match literal.kind with
  | .integer =>
    literal.text.toList ≠ [] ∧ literal.text.toList.all Char.isDigit = true ∧
      Text.digitsValue literal.text.toList ≤ limit
  | .character => isCharLiteral literal.text

namespace Expr

/-- How loosely an expression binds: not at all, by the rank of its operator, or as an
assignment. -/
def level : Expr → Nat
  | .binary _ op _ _ _ => op.rank + 1
  | .assign _ _ _ _ => BinaryOp.rankCount + 1
  | _ => 0

mutual

/-- An expression is grammatical, at a place where integer literals have a limit.  Operators of one
rank associate to the left, and assignments stand only where any expression may. -/
def GrammaticalUpTo : Expr → Nat → Prop
  | .literal written, limit => written.Grammatical limit
  | .identifier name, _ => name.Grammatical
  | .group _ inner, _ => inner.GrammaticalUpTo largestLiteral
  | .call _ callee arguments, _ => callee.Grammatical ∧ AllGrammatical arguments
  | .binary _ op _ left right, _ =>
    (left.level ≤ op.rank + 1 ∧ left.GrammaticalUpTo largestLiteral) ∧
      right.level ≤ op.rank ∧ right.GrammaticalUpTo largestLiteral
  | .unary _ op _ operand, _ => operand.level = 0 ∧ operand.GrammaticalUpTo op.largestOperand
  | .step _ _ _ target, _ => target.Grammatical
  | .assign _ target _ value, _ => target.Grammatical ∧ value.GrammaticalUpTo largestLiteral

/-- All expressions of a list are grammatical. -/
def AllGrammatical : List Expr → Prop
  | [] => True
  | first :: others => first.GrammaticalUpTo largestLiteral ∧ AllGrammatical others

end

/-- Where literals have a higher limit, more is grammatical. -/
theorem GrammaticalUpTo.mono {value : Expr} {limit higher : Nat}
    (grammatical : value.GrammaticalUpTo limit) (le : limit ≤ higher) :
    value.GrammaticalUpTo higher := by
  cases value with
  | literal written =>
    obtain ⟨kind, text, span⟩ := written
    cases kind with
    | integer => exact ⟨grammatical.1, grammatical.2.1, grammatical.2.2.trans le⟩
    | character => exact grammatical
  | _ => exact grammatical

/-- The limit matters to integer literals only. -/
theorem GrammaticalUpTo.of_no_integer {value : Expr} {limit : Nat}
    (grammatical : value.GrammaticalUpTo limit)
    (noInteger : ∀ literal, value = .literal literal → literal.kind ≠ .integer) (other : Nat) :
    value.GrammaticalUpTo other := by
  cases value with
  | literal written =>
    obtain ⟨kind, text, span⟩ := written
    cases kind with
    | integer => exact absurd rfl (noInteger _ rfl)
    | character => exact grammatical
  | _ => exact grammatical

/-- An expression is grammatical at a place of its own. -/
abbrev Grammatical (value : Expr) : Prop :=
  value.GrammaticalUpTo largestLiteral

end Expr

/-! ## Statements -/

/-- The variables of a declaration are grammatical, and there is at least one. -/
def Declarator.AllGrammatical (declarators : List Declarator) : Prop :=
  declarators ≠ [] ∧ ∀ declarator ∈ declarators,
    declarator.name.Grammatical ∧ ∀ value ∈ declarator.initializer, value.Grammatical

/-- The first part of a `for` statement is grammatical. -/
def ForInitializer.Grammatical : ForInitializer → Prop
  | .declaration declarators => Declarator.AllGrammatical declarators
  | .expression value => value.Grammatical

namespace Stmt

/-- Whether a statement ends in an `if` without an `else`, which would take an `else` that follows
the statement. -/
def endsOpen : Stmt → Bool
  | .ifThen _ _ _ => true
  | .ifElse _ _ _ negative => negative.endsOpen
  | .whileLoop _ _ body => body.endsOpen
  | .forLoop _ _ _ _ body => body.endsOpen
  | _ => false

mutual

/-- A statement is grammatical: no body of a control statement is a declaration, and every `else`
belongs to the nearest `if`. -/
def Grammatical : Stmt → Prop
  | .declaration _ declarators => Declarator.AllGrammatical declarators
  | .expression _ value => value.Grammatical
  | .block _ statements => AllGrammatical statements
  | .ifThen _ condition positive =>
    condition.Grammatical ∧ positive.Grammatical ∧ positive.isDeclaration = false
  | .ifElse _ condition positive negative =>
    condition.Grammatical ∧
      (positive.Grammatical ∧ positive.isDeclaration = false ∧ positive.endsOpen = false) ∧
      negative.Grammatical ∧ negative.isDeclaration = false
  | .whileLoop _ condition body =>
    condition.Grammatical ∧ body.Grammatical ∧ body.isDeclaration = false
  | .doWhile _ body condition =>
    (body.Grammatical ∧ body.isDeclaration = false) ∧ condition.Grammatical
  | .forLoop _ initializer test after body =>
    (∀ first ∈ initializer, first.Grammatical) ∧ (∀ value ∈ test, value.Grammatical) ∧
      (∀ value ∈ after, value.Grammatical) ∧ body.Grammatical ∧ body.isDeclaration = false
  | .breakLoop _ => True
  | .continueLoop _ => True
  | .returnValue _ value => ∀ result ∈ value, result.Grammatical
  | .empty _ => True

/-- All statements of a list are grammatical. -/
def AllGrammatical : List Stmt → Prop
  | [] => True
  | first :: others => first.Grammatical ∧ AllGrammatical others

end

end Stmt

/-! ## Programs -/

/-- The names and the body of a function are grammatical. -/
structure FunctionDef.Grammatical (function : FunctionDef) : Prop where
  name : function.name.Grammatical
  parameters : ∀ parameter ∈ function.parameters, parameter.name.Grammatical
  body : Stmt.AllGrammatical function.body.statements

/-- All functions of a program are grammatical. -/
def Program.Grammatical (program : Program) : Prop :=
  ∀ function ∈ program.functions, function.Grammatical

/-! ## Grammatical trees are well-formed -/

theorem Literal.Grammatical.wellFormed {literal : Literal} {limit : Nat}
    (grammatical : literal.Grammatical limit) (le : limit ≤ 2 ^ 31) : literal.WellFormed := by
  obtain ⟨kind, text, span⟩ := literal
  cases kind with
  | integer => exact ⟨grammatical.1, grammatical.2.1, grammatical.2.2.trans le⟩
  | character => exact grammatical

namespace Expr

mutual

theorem GrammaticalUpTo.wellFormed {value : Expr} {limit : Nat}
    (grammatical : value.GrammaticalUpTo limit) (le : limit ≤ 2 ^ 31) : value.WellFormed := by
  have plain : largestLiteral ≤ 2 ^ 31 := by decide
  match value with
  | .literal written => exact Literal.Grammatical.wellFormed grammatical le
  | .identifier name => exact grammatical.1
  | .group _ inner =>
    have inside : inner.GrammaticalUpTo largestLiteral := grammatical
    exact inside.wellFormed plain
  | .call _ callee arguments => exact ⟨grammatical.1.1, AllGrammatical.wellFormed grammatical.2⟩
  | .binary _ op _ left right =>
    exact ⟨grammatical.1.2.wellFormed plain, grammatical.2.2.wellFormed plain⟩
  | .unary _ op _ operand =>
    exact grammatical.2.wellFormed (by cases op <;> decide)
  | .step _ _ _ target => exact grammatical.1
  | .assign _ target _ assigned => exact ⟨grammatical.1.1, grammatical.2.wellFormed plain⟩

theorem AllGrammatical.wellFormed {values : List Expr} (grammatical : AllGrammatical values) :
    AllWellFormed values := by
  match values with
  | [] => trivial
  | first :: others =>
    exact ⟨grammatical.1.wellFormed (by decide), AllGrammatical.wellFormed grammatical.2⟩

end

theorem Grammatical.wellFormed {value : Expr} (grammatical : value.Grammatical) :
    value.WellFormed :=
  GrammaticalUpTo.wellFormed grammatical (by decide)

theorem optionWellFormed_of_grammatical {value : Option Expr}
    (grammatical : ∀ present ∈ value, present.Grammatical) : OptionWellFormed value := by
  cases value with
  | none => trivial
  | some present => exact Grammatical.wellFormed (grammatical present rfl)

end Expr

theorem Declarator.AllGrammatical.wellFormed {declarators : List Declarator}
    (grammatical : AllGrammatical declarators) :
    ∀ declarator ∈ declarators, declarator.WellFormed := by
  intro declarator declared
  obtain ⟨name, initial⟩ := grammatical.2 declarator declared
  exact ⟨name.1, Expr.optionWellFormed_of_grammatical initial⟩

theorem ForInitializer.wellFormed_of_grammatical {initializer : Option ForInitializer}
    (grammatical : ∀ first ∈ initializer, first.Grammatical) : WellFormed initializer := by
  match initializer with
  | none => trivial
  | some (.declaration declarators) => exact Declarator.AllGrammatical.wellFormed (grammatical _ rfl)
  | some (.expression value) => exact Expr.Grammatical.wellFormed (grammatical _ rfl)

namespace Stmt

mutual

theorem Grammatical.wellFormed {statement : Stmt} (grammatical : statement.Grammatical) :
    statement.WellFormed := by
  match statement with
  | .declaration _ declarators => exact Declarator.AllGrammatical.wellFormed grammatical
  | .expression _ value => exact Expr.Grammatical.wellFormed grammatical
  | .block _ statements => exact AllGrammatical.wellFormed grammatical
  | .ifThen _ condition positive =>
    obtain ⟨test, onTrue, isControlled⟩ := grammatical
    exact ⟨Expr.Grammatical.wellFormed test, onTrue.wellFormed, isControlled⟩
  | .ifElse _ condition positive negative =>
    obtain ⟨test, ⟨onTrue, trueControlled, -⟩, onFalse, falseControlled⟩ := grammatical
    exact ⟨Expr.Grammatical.wellFormed test, ⟨onTrue.wellFormed, trueControlled⟩,
      onFalse.wellFormed, falseControlled⟩
  | .whileLoop _ condition body =>
    obtain ⟨test, inside, isControlled⟩ := grammatical
    exact ⟨Expr.Grammatical.wellFormed test, inside.wellFormed, isControlled⟩
  | .doWhile _ body condition =>
    obtain ⟨⟨inside, isControlled⟩, test⟩ := grammatical
    exact ⟨⟨inside.wellFormed, isControlled⟩, Expr.Grammatical.wellFormed test⟩
  | .forLoop _ initializer test after body =>
    obtain ⟨first, before, later, inside, isControlled⟩ := grammatical
    exact ⟨ForInitializer.wellFormed_of_grammatical first,
      Expr.optionWellFormed_of_grammatical before, Expr.optionWellFormed_of_grammatical later,
      inside.wellFormed, isControlled⟩
  | .breakLoop _ | .continueLoop _ => trivial
  | .returnValue _ value => exact Expr.optionWellFormed_of_grammatical grammatical
  | .empty _ => trivial

theorem AllGrammatical.wellFormed {statements : List Stmt}
    (grammatical : AllGrammatical statements) : AllWellFormed statements := by
  match statements with
  | [] => trivial
  | first :: others => exact ⟨grammatical.1.wellFormed, AllGrammatical.wellFormed grammatical.2⟩

end

end Stmt

theorem Program.Grammatical.wellFormed {program : Program} (grammatical : program.Grammatical) :
    program.WellFormed := by
  intro function defined
  obtain ⟨name, parameters, body⟩ := grammatical function defined
  exact ⟨name.1, fun parameter declared => (parameters parameter declared).1, body.wellFormed⟩

/-! ## Trees without spans -/

/-- A name without its span. -/
def Ident.erased (name : Ident) : Ident :=
  ⟨name.name, .point 0⟩

/-- A literal without its span. -/
def Literal.erased (literal : Literal) : Literal :=
  ⟨literal.kind, literal.text, .point 0⟩

namespace Expr

mutual

/-- An expression without spans. -/
def erased : Expr → Expr
  | .literal written => .literal written.erased
  | .identifier name => .identifier name.erased
  | .group _ inner => .group (.point 0) inner.erased
  | .call _ callee arguments => .call (.point 0) callee.erased (allErased arguments)
  | .binary _ op _ left right => .binary (.point 0) op (.point 0) left.erased right.erased
  | .unary _ op _ operand => .unary (.point 0) op (.point 0) operand.erased
  | .step _ op fixity target => .step (.point 0) op fixity target.erased
  | .assign _ target op value =>
    .assign (.point 0) target.erased (op.map fun entry => (entry.1, .point 0)) value.erased

/-- Expressions without spans. -/
def allErased : List Expr → List Expr
  | [] => []
  | first :: others => first.erased :: allErased others

end

end Expr

/-- A declarator without spans. -/
def Declarator.erased (declarator : Declarator) : Declarator :=
  ⟨.point 0, declarator.name.erased, declarator.initializer.map Expr.erased⟩

/-- The first part of a `for` statement without spans. -/
def ForInitializer.erased : ForInitializer → ForInitializer
  | .declaration declarators => .declaration (declarators.map Declarator.erased)
  | .expression value => .expression value.erased

namespace Stmt

mutual

/-- A statement without spans. -/
def erased : Stmt → Stmt
  | .declaration _ declarators => .declaration (.point 0) (declarators.map Declarator.erased)
  | .expression _ value => .expression (.point 0) value.erased
  | .block _ statements => .block (.point 0) (allErased statements)
  | .ifThen _ condition positive => .ifThen (.point 0) condition.erased positive.erased
  | .ifElse _ condition positive negative =>
    .ifElse (.point 0) condition.erased positive.erased negative.erased
  | .whileLoop _ condition body => .whileLoop (.point 0) condition.erased body.erased
  | .doWhile _ body condition => .doWhile (.point 0) body.erased condition.erased
  | .forLoop _ initializer test after body =>
    .forLoop (.point 0) (initializer.map ForInitializer.erased) (test.map Expr.erased)
      (after.map Expr.erased) body.erased
  | .breakLoop _ => .breakLoop (.point 0)
  | .continueLoop _ => .continueLoop (.point 0)
  | .returnValue _ value => .returnValue (.point 0) (value.map Expr.erased)
  | .empty _ => .empty (.point 0)

/-- Statements without spans. -/
def allErased : List Stmt → List Stmt
  | [] => []
  | first :: others => first.erased :: allErased others

end

end Stmt

/-- A parameter without spans. -/
def Parameter.erased (parameter : Parameter) : Parameter :=
  ⟨.point 0, parameter.name.erased⟩

/-- A function without spans. -/
def FunctionDef.erased (function : FunctionDef) : FunctionDef :=
  ⟨.point 0, function.returnType, function.name.erased, function.parameters.map Parameter.erased,
    ⟨.point 0, Stmt.allErased function.body.statements⟩⟩

/-- A program without spans and without the place where its text ends. -/
def Program.erased (program : Program) : Program :=
  ⟨program.functions.map FunctionDef.erased, 0⟩

end SmallC
