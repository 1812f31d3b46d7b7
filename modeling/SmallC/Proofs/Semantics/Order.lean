import SmallC.Proofs.Semantics.Evaluation

/-!
# Order of evaluation

The value of a variable is used where it is, not where it is evaluated.  That makes a difference only
if something between changes the variable, so it makes none in programs whose operands and arguments
do not interfere.  Such programs are described here by the variables that each expression reads and
modifies.
-/

namespace SmallC

/-! ## Variables of expressions -/

mutual

/-- The variables whose values an expression reads. -/
def Expr.reads : Expr → List String
  | .literal _ => []
  | .identifier name => [name.name]
  | .group _ inner => inner.reads
  | .call _ _ arguments => Expr.readsOfAll arguments
  | .binary _ _ _ left right => left.reads ++ right.reads
  | .unary _ _ _ operand => operand.reads
  | .step _ _ _ target => [target.name]
  | .assign _ target op value => (if op.isSome then [target.name] else []) ++ value.reads

/-- The variables whose values some expressions read. -/
def Expr.readsOfAll : List Expr → List String
  | [] => []
  | first :: others => first.reads ++ Expr.readsOfAll others

end

mutual

/-- The variables that an expression may modify. -/
def Expr.modifies : Expr → List String
  | .literal _ => []
  | .identifier _ => []
  | .group _ inner => inner.modifies
  | .call _ _ arguments => Expr.modifiesOfAll arguments
  | .binary _ _ _ left right => left.modifies ++ right.modifies
  | .unary _ _ _ operand => operand.modifies
  | .step _ _ _ target => [target.name]
  | .assign _ target _ value => target.name :: value.modifies

/-- The variables that some expressions may modify. -/
def Expr.modifiesOfAll : List Expr → List String
  | [] => []
  | first :: others => first.modifies ++ Expr.modifiesOfAll others

end

/-- Two expressions interfere unless neither modifies a variable that the other reads or
modifies. -/
def Expr.Independent (first second : Expr) : Prop :=
  (∀ name ∈ first.modifies, name ∉ second.reads ∧ name ∉ second.modifies) ∧
    ∀ name ∈ second.modifies, name ∉ first.reads ∧ name ∉ first.modifies

instance (first second : Expr) : Decidable (first.Independent second) :=
  inferInstanceAs (Decidable (_ ∧ _))

/-! ## Conditions on expressions -/

/-- The operands of an operator that evaluates both, and the arguments of a call, are
independent. -/
def Expr.OrderFree : Expr → Prop
  | .binary _ (.arithmetic _) _ left right => left.Independent right
  | .binary _ (.compare _) _ left right => left.Independent right
  | .call _ _ arguments => arguments.Pairwise Expr.Independent
  | _ => True

/-- A call of a function of the program passes as many arguments as the function has parameters. -/
def Expr.MatchesArity (program : Program) : Expr → Prop
  | .call _ callee arguments =>
    ∀ function ∈ program.function? callee.name, function.parameters.length = arguments.length
  | _ => True

instance : DecidablePred Expr.OrderFree
  | .binary _ (.arithmetic _) _ left right => inferInstanceAs (Decidable (left.Independent right))
  | .binary _ (.compare _) _ left right => inferInstanceAs (Decidable (left.Independent right))
  | .binary _ (.logical _) _ _ _ => .isTrue trivial
  | .call _ _ arguments => inferInstanceAs (Decidable (arguments.Pairwise Expr.Independent))
  | .literal _ => .isTrue trivial
  | .identifier _ => .isTrue trivial
  | .group _ _ => .isTrue trivial
  | .unary _ _ _ _ => .isTrue trivial
  | .step _ _ _ _ => .isTrue trivial
  | .assign _ _ _ _ => .isTrue trivial

instance (program : Program) : DecidablePred (Expr.MatchesArity program)
  | .call _ callee arguments =>
    inferInstanceAs (Decidable (∀ function ∈ program.function? callee.name,
      function.parameters.length = arguments.length))
  | .literal _ => .isTrue trivial
  | .identifier _ => .isTrue trivial
  | .group _ _ => .isTrue trivial
  | .binary _ _ _ _ _ => .isTrue trivial
  | .unary _ _ _ _ => .isTrue trivial
  | .step _ _ _ _ => .isTrue trivial
  | .assign _ _ _ _ => .isTrue trivial

/-! ## Expressions of a program -/

mutual

/-- An expression and all expressions in it. -/
def Expr.parts : Expr → List Expr
  | .literal written => [.literal written]
  | .identifier name => [.identifier name]
  | .group span inner => .group span inner :: inner.parts
  | .call span callee arguments => .call span callee arguments :: Expr.partsOfAll arguments
  | .binary span op opSpan left right =>
    .binary span op opSpan left right :: (left.parts ++ right.parts)
  | .unary span op opSpan operand => .unary span op opSpan operand :: operand.parts
  | .step span op fixity target => [.step span op fixity target]
  | .assign span target op value => .assign span target op value :: value.parts

/-- All expressions in a list of expressions. -/
def Expr.partsOfAll : List Expr → List Expr
  | [] => []
  | first :: others => first.parts ++ Expr.partsOfAll others

end

/-- All expressions in an expression that may be missing. -/
def Expr.partsOfOption : Option Expr → List Expr
  | none => []
  | some value => value.parts

/-- All expressions in a declaration. -/
def Declarator.parts : List Declarator → List Expr
  | [] => []
  | first :: others => Expr.partsOfOption first.initializer ++ Declarator.parts others

/-- All expressions in what a `for` statement does before its loop. -/
def ForInitializer.parts : Option ForInitializer → List Expr
  | none => []
  | some (.declaration declarators) => Declarator.parts declarators
  | some (.expression value) => value.parts

mutual

/-- All expressions in a statement. -/
def Stmt.parts : Stmt → List Expr
  | .declaration _ declarators => Declarator.parts declarators
  | .expression _ value => value.parts
  | .block _ statements => Stmt.partsOfAll statements
  | .ifThen _ condition positive => condition.parts ++ positive.parts
  | .ifElse _ condition positive negative => condition.parts ++ positive.parts ++ negative.parts
  | .whileLoop _ condition body => condition.parts ++ body.parts
  | .doWhile _ body condition => body.parts ++ condition.parts
  | .forLoop _ initializer test after body =>
    ForInitializer.parts initializer ++ Expr.partsOfOption test ++ Expr.partsOfOption after ++
      body.parts
  | .breakLoop _ => []
  | .continueLoop _ => []
  | .returnValue _ value => Expr.partsOfOption value
  | .empty _ => []

/-- All expressions in a list of statements. -/
def Stmt.partsOfAll : List Stmt → List Expr
  | [] => []
  | first :: others => first.parts ++ Stmt.partsOfAll others

end

/-- All expressions in a program. -/
def Program.parts (program : Program) : List Expr :=
  program.functions.flatMap fun function => Stmt.partsOfAll function.body.statements

end SmallC
