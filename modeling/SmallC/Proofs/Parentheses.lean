import SmallC.Graph.Lowering
import SmallC.Parse.Program
import SmallC.Proofs.Result
import SmallC.Proofs.Semantics.Order
import SmallC.Semantic.Check

/-!
# Parentheses

Parentheses are kept in the tree, and the walks through it meet them in three ways: a search for a
call goes into them, what becomes of a dropped value is decided on the expression inside them, and
everything else passes them by.  Without them the tree means the same: the checks give the same error
or the same warnings, and lowering gives the same graphs or the same fault.
-/

namespace SmallC

/-! ## Trees without parentheses -/

mutual

/-- An expression without the parentheses around it and in it. -/
def Expr.bare : Expr → Expr
  | .literal written => .literal written
  | .identifier name => .identifier name
  | .group _ inner => inner.bare
  | .call span callee arguments => .call span callee (Expr.bareAll arguments)
  | .binary span op opSpan left right => .binary span op opSpan left.bare right.bare
  | .unary span op opSpan operand => .unary span op opSpan operand.bare
  | .step span op fixity target => .step span op fixity target
  | .assign span target op value => .assign span target op value.bare

/-- Expressions without parentheses. -/
def Expr.bareAll : List Expr → List Expr
  | [] => []
  | first :: others => first.bare :: Expr.bareAll others

end

/-- A variable of a declaration, with its initial value without parentheses. -/
def Declarator.bare (declarator : Declarator) : Declarator :=
  { declarator with initializer := declarator.initializer.map Expr.bare }

/-- What a `for` statement does before its loop, without parentheses. -/
def ForInitializer.bare : ForInitializer → ForInitializer
  | .declaration declarators => .declaration (declarators.map Declarator.bare)
  | .expression value => .expression value.bare

mutual

/-- A statement without the parentheses in its expressions. -/
def Stmt.bare : Stmt → Stmt
  | .declaration span declarators => .declaration span (declarators.map Declarator.bare)
  | .expression span value => .expression span value.bare
  | .block span statements => .block span (Stmt.bareAll statements)
  | .ifThen span condition positive => .ifThen span condition.bare positive.bare
  | .ifElse span condition positive negative =>
    .ifElse span condition.bare positive.bare negative.bare
  | .whileLoop span condition body => .whileLoop span condition.bare body.bare
  | .doWhile span body condition => .doWhile span body.bare condition.bare
  | .forLoop span initializer test after body =>
    .forLoop span (initializer.map ForInitializer.bare) (test.map Expr.bare)
      (after.map Expr.bare) body.bare
  | .breakLoop span => .breakLoop span
  | .continueLoop span => .continueLoop span
  | .returnValue span value => .returnValue span (value.map Expr.bare)
  | .empty span => .empty span

/-- Statements without the parentheses in their expressions. -/
def Stmt.bareAll : List Stmt → List Stmt
  | [] => []
  | first :: others => first.bare :: Stmt.bareAll others

end

/-- A function without the parentheses in the expressions of its body. -/
def FunctionDef.bare (function : FunctionDef) : FunctionDef :=
  { function with body := ⟨function.body.span, Stmt.bareAll function.body.statements⟩ }

/-- A program without the parentheses in its expressions. -/
def Program.bare (program : Program) : Program :=
  { program with functions := program.functions.map FunctionDef.bare }

/-! ## No parentheses are left -/

/-- Whether an expression stands in parentheses. -/
def Expr.isGroup : Expr → Bool
  | .group _ _ => true
  | _ => false

/-- None of some expressions stands in parentheses. -/
def Groupless (values : List Expr) : Prop :=
  ∀ value ∈ values, value.isGroup = false

namespace Groupless

variable {first second : List Expr} {value : Expr}

theorem nil : Groupless [] :=
  nofun

theorem cons (here : value.isGroup = false) (rest : Groupless first) : Groupless (value :: first) :=
  List.forall_mem_cons.mpr ⟨here, rest⟩

theorem append (before : Groupless first) (after : Groupless second) :
    Groupless (first ++ second) :=
  List.forall_mem_append.mpr ⟨before, after⟩

end Groupless

mutual

theorem Expr.groupless_bare : (value : Expr) → Groupless value.bare.parts
  | .literal _ | .identifier _ => .cons rfl .nil
  | .group _ inner => Expr.groupless_bare inner
  | .call _ _ arguments => .cons rfl (Expr.groupless_bareAll arguments)
  | .binary _ _ _ left right =>
    .cons rfl ((Expr.groupless_bare left).append (Expr.groupless_bare right))
  | .unary _ _ _ operand => .cons rfl (Expr.groupless_bare operand)
  | .step _ _ _ _ => .cons rfl .nil
  | .assign _ _ _ value => .cons rfl (Expr.groupless_bare value)

theorem Expr.groupless_bareAll :
    (values : List Expr) → Groupless (Expr.partsOfAll (Expr.bareAll values))
  | [] => .nil
  | first :: others => (Expr.groupless_bare first).append (Expr.groupless_bareAll others)

end

theorem Expr.groupless_bareOption :
    (value : Option Expr) → Groupless (Expr.partsOfOption (value.map Expr.bare))
  | none => .nil
  | some value => value.groupless_bare

theorem Declarator.groupless_bare :
    (declarators : List Declarator) → Groupless (Declarator.parts (declarators.map Declarator.bare))
  | [] => .nil
  | first :: others =>
    (Expr.groupless_bareOption first.initializer).append (Declarator.groupless_bare others)

theorem ForInitializer.groupless_bare : (initializer : Option ForInitializer) →
    Groupless (ForInitializer.parts (initializer.map ForInitializer.bare))
  | none => .nil
  | some (.declaration declarators) => Declarator.groupless_bare declarators
  | some (.expression value) => value.groupless_bare

mutual

theorem Stmt.groupless_bare : (statement : Stmt) → Groupless statement.bare.parts
  | .declaration _ declarators => Declarator.groupless_bare declarators
  | .expression _ value => value.groupless_bare
  | .block _ statements => Stmt.groupless_bareAll statements
  | .ifThen _ condition positive => condition.groupless_bare.append positive.groupless_bare
  | .ifElse _ condition positive negative =>
    (condition.groupless_bare.append positive.groupless_bare).append negative.groupless_bare
  | .whileLoop _ condition body => condition.groupless_bare.append body.groupless_bare
  | .doWhile _ body condition => body.groupless_bare.append condition.groupless_bare
  | .forLoop _ initializer test after body =>
    (((ForInitializer.groupless_bare initializer).append (Expr.groupless_bareOption test)).append
      (Expr.groupless_bareOption after)).append body.groupless_bare
  | .breakLoop _ | .continueLoop _ => .nil
  | .returnValue _ value => Expr.groupless_bareOption value
  | .empty _ => .nil

theorem Stmt.groupless_bareAll :
    (statements : List Stmt) → Groupless (Stmt.partsOfAll (Stmt.bareAll statements))
  | [] => .nil
  | first :: others => first.groupless_bare.append (Stmt.groupless_bareAll others)

end

theorem Program.groupless_bare (program : Program) : Groupless program.bare.parts := by
  intro value member
  simp only [Program.parts, Program.bare, List.flatMap_map, List.mem_flatMap] at member
  rcases member with ⟨function, -, within⟩
  exact Stmt.groupless_bareAll function.body.statements value within

/-! ## Checks -/

namespace Semantic

variable {isVoid : String → Bool}

mutual

@[simp]
theorem findCall?_bare (wanted : String → Bool) (value : Expr) :
    value.bare.findCall? wanted = value.findCall? wanted := by
  cases value with
  | literal _ | identifier _ | step _ _ _ _ => rfl
  | group _ inner => exact findCall?_bare wanted inner
  | call _ _ arguments => simp [Expr.bare, Expr.findCall?, findCallIn?_bareAll wanted arguments]
  | binary _ _ _ left right =>
    simp [Expr.bare, Expr.findCall?, findCall?_bare wanted left, findCall?_bare wanted right]
  | unary _ _ _ operand => exact findCall?_bare wanted operand
  | assign _ _ _ assigned => exact findCall?_bare wanted assigned

@[simp]
theorem findCallIn?_bareAll (wanted : String → Bool) (values : List Expr) :
    Expr.findCallIn? wanted (Expr.bareAll values) = Expr.findCallIn? wanted values := by
  cases values with
  | nil => rfl
  | cons first others =>
    simp [Expr.bareAll, Expr.findCallIn?, findCall?_bare wanted first,
      findCallIn?_bareAll wanted others]

end

@[simp]
theorem valueUsed_bare (value : Expr) : valueUsed isVoid value.bare = valueUsed isVoid value := by
  simp [valueUsed]

/-- A call counts as dropped however many parentheses stand around it. -/
@[simp]
theorem valueDiscarded_bare :
    (value : Expr) → valueDiscarded isVoid value.bare = valueDiscarded isVoid value
  | .group _ inner => valueDiscarded_bare inner
  | .call _ _ arguments => congrArg refuseCall (findCallIn?_bareAll isVoid arguments)
  | .assign _ _ _ value => valueUsed_bare value
  | .literal written => valueUsed_bare (.literal written)
  | .identifier name => valueUsed_bare (.identifier name)
  | .binary span op opSpan left right => valueUsed_bare (.binary span op opSpan left right)
  | .unary span op opSpan operand => valueUsed_bare (.unary span op opSpan operand)
  | .step span op fixity target => valueUsed_bare (.step span op fixity target)

mutual

@[simp]
theorem checkExpr_bare (value : Expr) : checkExpr value.bare = checkExpr value := by
  funext state
  cases value with
  | literal _ | identifier _ | step _ _ _ _ => rfl
  | group _ inner => exact congrFun (checkExpr_bare inner) state
  | call _ _ arguments => simp only [Expr.bare, checkExpr, checkExprs_bareAll arguments]
  | binary _ _ _ left right =>
    simp only [Expr.bare, checkExpr, checkExpr_bare left, checkExpr_bare right]
  | unary _ _ _ operand => exact congrFun (checkExpr_bare operand) state
  | assign _ _ _ assigned => simp only [Expr.bare, checkExpr, checkExpr_bare assigned]

@[simp]
theorem checkExprs_bareAll (values : List Expr) :
    checkExprs (Expr.bareAll values) = checkExprs values := by
  funext state
  cases values with
  | nil => rfl
  | cons first others =>
    simp only [Expr.bareAll, checkExprs, checkExpr_bare first, checkExprs_bareAll others]

end

@[simp]
theorem checkUsed_bare (value : Expr) : checkUsed isVoid value.bare = checkUsed isVoid value := by
  funext state
  simp [checkUsed]

@[simp]
theorem checkDiscarded_bare (value : Expr) :
    checkDiscarded isVoid value.bare = checkDiscarded isVoid value := by
  funext state
  simp [checkDiscarded]

@[simp]
theorem checkOptional_bare {check : Expr → State → Except SemanticError State}
    (same : ∀ value, check value.bare = check value) (value : Option Expr) :
    checkOptional check (value.map Expr.bare) = checkOptional check value := by
  funext state
  cases value with
  | none => rfl
  | some value => exact congrFun (same value) state

@[simp]
theorem checkDeclarators_bare (declarators : List Declarator) :
    checkDeclarators isVoid (declarators.map Declarator.bare) =
      checkDeclarators isVoid declarators := by
  induction declarators with
  | nil => rfl
  | cons first others ih =>
    have same : checkDeclarator isVoid first.bare = checkDeclarator isVoid first := by
      funext state
      rcases first with ⟨span, name, _ | value⟩
      · rfl
      · simp [Declarator.bare, checkDeclarator]
    funext state
    simp only [List.map_cons, checkDeclarators, same, ih]

@[simp]
theorem checkForInitializer_bare (initializer : Option ForInitializer) :
    checkForInitializer isVoid (initializer.map ForInitializer.bare) =
      checkForInitializer isVoid initializer := by
  funext state
  match initializer with
  | none => rfl
  | some (.declaration declarators) => exact congrFun (checkDeclarators_bare declarators) state
  | some (.expression value) => exact congrFun (checkDiscarded_bare value) state

mutual

@[simp]
theorem checkStmt_bare (inLoop : Bool) (statement : Stmt) :
    checkStmt isVoid inLoop statement.bare = checkStmt isVoid inLoop statement := by
  funext state
  cases statement with
  | declaration _ declarators => simp only [Stmt.bare, checkStmt, checkDeclarators_bare]
  | expression _ value => simp only [Stmt.bare, checkStmt, checkDiscarded_bare]
  | block _ statements => simp only [Stmt.bare, checkStmt, checkStmts_bareAll inLoop statements]
  | ifThen _ condition positive =>
    simp only [Stmt.bare, checkStmt, checkUsed_bare, checkStmt_bare inLoop positive]
  | ifElse _ condition positive negative =>
    simp only [Stmt.bare, checkStmt, checkUsed_bare, checkStmt_bare inLoop positive,
      checkStmt_bare inLoop negative]
  | whileLoop _ condition body | doWhile _ body condition =>
    simp only [Stmt.bare, checkStmt, checkUsed_bare, checkStmt_bare true body]
  | forLoop _ initializer test after body =>
    simp only [Stmt.bare, checkStmt, checkForInitializer_bare,
      checkOptional_bare checkUsed_bare, checkOptional_bare checkDiscarded_bare,
      checkStmt_bare true body]
  | breakLoop _ | continueLoop _ | empty _ => rfl
  | returnValue _ value => simp only [Stmt.bare, checkStmt, checkOptional_bare checkUsed_bare]

@[simp]
theorem checkStmts_bareAll (inLoop : Bool) (statements : List Stmt) :
    checkStmts isVoid inLoop (Stmt.bareAll statements) = checkStmts isVoid inLoop statements := by
  funext state
  cases statements with
  | nil => rfl
  | cons first others =>
    simp only [Stmt.bareAll, checkStmts, checkStmt_bare inLoop first,
      checkStmts_bareAll inLoop others]

end

theorem checkFunctions_bare (functions : List FunctionDef) :
    checkFunctions isVoid (functions.map FunctionDef.bare) = checkFunctions isVoid functions := by
  induction functions with
  | nil => rfl
  | cons first others ih =>
    have same : checkFunction isVoid first.bare = checkFunction isVoid first := by
      simp [checkFunction, FunctionDef.bare]
    simp only [List.map_cons, checkFunctions, same, ih]

end Semantic

/-! ## Lowering -/

namespace Lowering

variable {defined : String → Bool}

mutual

@[simp]
theorem lowerExpr_bare (value : Expr) : lowerExpr defined value.bare = lowerExpr defined value := by
  funext graph
  cases value with
  | literal _ | identifier _ | step _ _ _ _ => rfl
  | group _ inner => exact congrFun (lowerExpr_bare inner) graph
  | call _ _ arguments => simp only [Expr.bare, lowerExpr, lowerArguments_bareAll arguments]
  | binary _ op _ left right =>
    cases op <;> simp only [Expr.bare, lowerExpr, lowerExpr_bare left, lowerExpr_bare right]
  | unary _ _ _ operand => simp only [Expr.bare, lowerExpr, lowerExpr_bare operand]
  | assign _ _ _ assigned => simp only [Expr.bare, lowerExpr, lowerExpr_bare assigned]

@[simp]
theorem lowerArguments_bareAll (values : List Expr) :
    lowerArguments defined (Expr.bareAll values) = lowerArguments defined values := by
  funext graph
  cases values with
  | nil => rfl
  | cons first others =>
    simp only [Expr.bareAll, lowerArguments, lowerExpr_bare first, lowerArguments_bareAll others]

end

@[simp]
theorem lowerEffect_bare (value : Expr) :
    lowerEffect defined value.bare = lowerEffect defined value := by
  funext graph
  simp [lowerEffect]

@[simp]
theorem lowerDeclarators_bare (declarators : List Declarator) :
    lowerDeclarators defined (declarators.map Declarator.bare) =
      lowerDeclarators defined declarators := by
  induction declarators with
  | nil => rfl
  | cons first others ih =>
    have same : lowerDeclarator defined first.bare = lowerDeclarator defined first := by
      funext graph
      rcases first with ⟨span, name, _ | value⟩
      · rfl
      · simp [Declarator.bare, lowerDeclarator]
    funext graph
    simp only [List.map_cons, lowerDeclarators, same, ih]

@[simp]
theorem lowerForInitializer_bare (initializer : Option ForInitializer) :
    lowerForInitializer defined (initializer.map ForInitializer.bare) =
      lowerForInitializer defined initializer := by
  funext graph
  match initializer with
  | none => rfl
  | some (.declaration declarators) => exact congrFun (lowerDeclarators_bare declarators) graph
  | some (.expression value) => exact congrFun (lowerEffect_bare value) graph

@[simp]
theorem lowerForTest_bare (blocks : ForBlocks) (test : Option Expr) :
    lowerForTest defined blocks (test.map Expr.bare) = lowerForTest defined blocks test := by
  funext graph
  cases test with
  | none => rfl
  | some value => simp [lowerForTest]

/-- The blocks of a `for` statement, with the expression after the body without parentheses. -/
def ForBlocks.bare (blocks : ForBlocks) : ForBlocks :=
  { blocks with after := blocks.after.map fun after => (after.1, after.2.bare) }

theorem createForBlocks_bare (after : Option Expr) (graph : Graph) :
    createForBlocks (after.map Expr.bare) graph =
      ((createForBlocks after graph).1.bare, (createForBlocks after graph).2) := by
  cases after <;> rfl

@[simp]
theorem lowerForTest_blocks_bare (blocks : ForBlocks) :
    lowerForTest defined blocks.bare = lowerForTest defined blocks := by
  funext test graph
  cases test <;> rfl

@[simp]
theorem lowerForAfter_blocks_bare (blocks : ForBlocks) :
    lowerForAfter defined blocks.bare = lowerForAfter defined blocks := by
  funext graph
  rcases blocks with ⟨test, body, _ | ⟨after, value⟩, out⟩
  · rfl
  · simp [ForBlocks.bare, lowerForAfter]

@[simp]
theorem targets_bare (blocks : ForBlocks) : blocks.bare.targets = blocks.targets := by
  rcases blocks with ⟨test, body, _ | ⟨after, value⟩, out⟩ <;> rfl

mutual

@[simp]
theorem lowerStmt_bare (loop : Option LoopTargets) (statement : Stmt) :
    lowerStmt defined loop statement.bare = lowerStmt defined loop statement := by
  funext graph
  cases statement with
  | declaration _ declarators => simp only [Stmt.bare, lowerStmt, lowerDeclarators_bare]
  | expression _ value => simp only [Stmt.bare, lowerStmt, lowerEffect_bare]
  | block _ statements => simp only [Stmt.bare, lowerStmt, lowerStmts_bareAll loop statements]
  | ifThen _ condition positive =>
    simp only [Stmt.bare, lowerStmt, lowerExpr_bare, lowerStmt_bare loop positive]
  | ifElse _ condition positive negative =>
    simp only [Stmt.bare, lowerStmt, lowerExpr_bare, lowerStmt_bare loop positive,
      lowerStmt_bare loop negative]
  | whileLoop _ condition body | doWhile _ body condition =>
    simp only [Stmt.bare, lowerStmt, lowerExpr_bare, lowerStmt_bare _ body]
  | forLoop _ initializer test after body =>
    simp only [Stmt.bare, lowerStmt, lowerForInitializer_bare, createForBlocks_bare,
      lowerForTest_bare, lowerForTest_blocks_bare, targets_bare, lowerStmt_bare _ body,
      lowerForAfter_blocks_bare]
    rfl
  | breakLoop _ | continueLoop _ | empty _ => rfl
  | returnValue _ value =>
    cases value with
    | none => rfl
    | some value => simp only [Stmt.bare, Option.map_some, lowerStmt, lowerExpr_bare]

@[simp]
theorem lowerStmts_bareAll (loop : Option LoopTargets) (statements : List Stmt) :
    lowerStmts defined loop (Stmt.bareAll statements) = lowerStmts defined loop statements := by
  funext graph
  cases statements with
  | nil => rfl
  | cons first others =>
    simp only [Stmt.bareAll, lowerStmts, lowerStmt_bare loop first, lowerStmts_bareAll loop others]

end

theorem lowerFunctions_bare (functions : List FunctionDef) :
    lowerFunctions defined (functions.map FunctionDef.bare) = lowerFunctions defined functions := by
  induction functions with
  | nil => rfl
  | cons first others ih =>
    have same : lowerFunction defined first.bare = lowerFunction defined first := by
      simp [lowerFunction, FunctionDef.bare]
    simp only [List.map_cons, lowerFunctions, same, ih]

end Lowering

/-! ## Main statement -/

namespace Program

variable (program : Program)

@[simp]
theorem defines_bare : program.bare.defines = program.defines := by
  funext name
  simp [defines, bare, FunctionDef.bare, Function.comp_def]

@[simp]
theorem definesVoid_bare : program.bare.definesVoid = program.definesVoid := by
  funext name
  simp [definesVoid, bare, FunctionDef.bare, Function.comp_def]

theorem check_bare : program.bare.check = program.check := by
  have sameNames : program.bare.functions.map (·.name) = program.functions.map (·.name) := by
    simp [bare, FunctionDef.bare, Function.comp_def]
  rw [check, check, sameNames, defines_bare, definesVoid_bare]
  rw [bare, Semantic.checkFunctions_bare]

theorem lower_bare : program.bare.lower = program.lower := by
  rw [lower, lower, defines_bare]
  exact Lowering.lowerFunctions_bare program.functions

/-- Parentheses have no meaning: the checks and lowering give the same of a program and of the
program without any of its parentheses, and so the same of all programs that differ in nothing but
their parentheses. -/
theorem parentheses_have_no_meaning :
    (∀ value ∈ program.bare.parts, value.isGroup = false) ∧
      program.bare.check = program.check ∧ program.bare.lower = program.lower ∧
        ∀ other : Program, other.bare = program.bare →
          other.check = program.check ∧ other.lower = program.lower := by
  refine ⟨program.groupless_bare, program.check_bare, program.lower_bare, ?_⟩
  intro other sameBare
  constructor
  · rw [← other.check_bare, sameBare, program.check_bare]
  · rw [← other.lower_bare, sameBare, program.lower_bare]

/-- A call of a function without a result whose value is dropped, and a sum, in parentheses. -/
theorem parentheses_have_no_meaning_dropped :
    ∃ program : Program,
      parseProgram "void f()\x7b\x7dint main()\x7b((f()));return ((1)+2);\x7d".toList =
          .ok program ∧
        program.parts.any Expr.isGroup = true ∧ program.bare.bare = program.bare ∧
          program.bare.check = program.check ∧ program.bare.lower = program.lower := by
  have evaluated : (parseProgram
      "void f()\x7b\x7dint main()\x7b((f()));return ((1)+2);\x7d".toList).toOption.any
        (fun program => program.parts.any Expr.isGroup) = true := by
    cbv
  have again : (parseProgram
      "void f()\x7b\x7dint main()\x7b((f()));return ((1)+2);\x7d".toList).toOption.map
        (fun program => program.bare.bare) = (parseProgram
      "void f()\x7b\x7dint main()\x7b((f()));return ((1)+2);\x7d".toList).toOption.map
        Program.bare := by
    set_option maxRecDepth 800 in cbv
  rcases exists_ok_of_any evaluated with ⟨program, parsed, grouped⟩
  rw [parsed] at again
  have sameBare : program.bare.bare = program.bare := Option.some.inj again
  exact ⟨program, parsed, grouped, sameBare,
    (parentheses_have_no_meaning program).2.2.2 program.bare sameBare⟩

end Program

end SmallC
