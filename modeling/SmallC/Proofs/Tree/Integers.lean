import SmallC.Proofs.Tree.Written

/-!
# Integer literals of a tree

An integer literal may be larger right after a minus sign than elsewhere.  The literals of a tree
are listed in the order in which they are written, each with whether it stands at such a place.  No
other integer literal is written.  A tree is grammatical exactly when it is once all its integers are
replaced by zero and each of them is within the limit of its place.
-/

namespace SmallC

/-- The largest value of an integer literal, which stands right after a minus sign or does not. -/
def literalLimit (negated : Bool) : Nat :=
  if negated then 2 ^ 31 else 2 ^ 31 - 1

theorem literalLimit_le (negated : Bool) : literalLimit negated ≤ 2 ^ 31 := by
  cases negated <;> decide

namespace Expr

mutual

/-- The integer literals of an expression as they are written, each with whether it is the operand
of a minus sign.  Whether the whole expression is such an operand is given. -/
def integers : Expr → Bool → List (String × Bool)
  | .literal written, negated =>
    match written.kind with
    | .integer => [(written.text, negated)]
    | .character => []
  | .identifier _, _ => []
  | .group _ inner, _ => inner.integers false
  | .call _ _ arguments, _ => integersIn arguments
  | .binary _ _ _ left right, _ => left.integers false ++ right.integers false
  | .unary _ op _ operand, _ => operand.integers (op = .negate)
  | .step _ _ _ _, _ => []
  | .assign _ _ _ value, _ => value.integers false

/-- The integer literals of a list of expressions. -/
def integersIn : List Expr → List (String × Bool)
  | [] => []
  | first :: others => first.integers false ++ integersIn others

end

/-- The integer literals of an expression that may be missing. -/
def optionIntegers : Option Expr → List (String × Bool)
  | none => []
  | some value => value.integers false

end Expr

/-- The integer literals of the initial values in a declaration. -/
def Declarator.integersIn (declarators : List Declarator) : List (String × Bool) :=
  declarators.flatMap fun declarator => Expr.optionIntegers declarator.initializer

/-- The integer literals of the first part of a `for` statement. -/
def ForInitializer.integers : Option ForInitializer → List (String × Bool)
  | none => []
  | some (.declaration declarators) => Declarator.integersIn declarators
  | some (.expression value) => value.integers false

namespace Stmt

mutual

/-- The integer literals of a statement as they are written. -/
def integers : Stmt → List (String × Bool)
  | .declaration _ declarators => Declarator.integersIn declarators
  | .expression _ value => value.integers false
  | .block _ statements => integersIn statements
  | .ifThen _ condition positive => condition.integers false ++ positive.integers
  | .ifElse _ condition positive negative =>
    condition.integers false ++ (positive.integers ++ negative.integers)
  | .whileLoop _ condition body => condition.integers false ++ body.integers
  | .doWhile _ body condition => body.integers ++ condition.integers false
  | .forLoop _ initializer test after body =>
    (ForInitializer.integers initializer ++
      (Expr.optionIntegers test ++ Expr.optionIntegers after)) ++ body.integers
  | .breakLoop _ => []
  | .continueLoop _ => []
  | .returnValue _ value => Expr.optionIntegers value
  | .empty _ => []

/-- The integer literals of a list of statements. -/
def integersIn : List Stmt → List (String × Bool)
  | [] => []
  | first :: others => first.integers ++ integersIn others

end

end Stmt

/-- The integer literals of a program as they are written, each with whether it stands right after a
minus sign. -/
def Program.integers (program : Program) : List (String × Bool) :=
  program.functions.flatMap fun function => Stmt.integersIn function.body.statements

/-! ## Trees whose integers are zero -/

/-- A literal that is zero if it is an integer. -/
def Literal.zeroed (literal : Literal) : Literal :=
  match literal.kind with
  | .integer => ⟨.integer, "0", literal.span⟩
  | .character => literal

namespace Expr

mutual

/-- An expression with zero for every integer. -/
def zeroed : Expr → Expr
  | .literal written => .literal written.zeroed
  | .identifier name => .identifier name
  | .group span inner => .group span inner.zeroed
  | .call span callee arguments => .call span callee (allZeroed arguments)
  | .binary span op opSpan left right => .binary span op opSpan left.zeroed right.zeroed
  | .unary span op opSpan operand => .unary span op opSpan operand.zeroed
  | .step span op fixity target => .step span op fixity target
  | .assign span target op value => .assign span target op value.zeroed

/-- Expressions with zero for every integer. -/
def allZeroed : List Expr → List Expr
  | [] => []
  | first :: others => first.zeroed :: allZeroed others

end

@[simp]
theorem level_zeroed (value : Expr) : value.zeroed.level = value.level := by
  cases value <;> rfl

end Expr

/-- A declarator with zero for every integer. -/
def Declarator.zeroed (declarator : Declarator) : Declarator :=
  ⟨declarator.span, declarator.name, declarator.initializer.map Expr.zeroed⟩

/-- The first part of a `for` statement with zero for every integer. -/
def ForInitializer.zeroed : ForInitializer → ForInitializer
  | .declaration declarators => .declaration (declarators.map Declarator.zeroed)
  | .expression value => .expression value.zeroed

namespace Stmt

mutual

/-- A statement with zero for every integer. -/
def zeroed : Stmt → Stmt
  | .declaration span declarators => .declaration span (declarators.map Declarator.zeroed)
  | .expression span value => .expression span value.zeroed
  | .block span statements => .block span (allZeroed statements)
  | .ifThen span condition positive => .ifThen span condition.zeroed positive.zeroed
  | .ifElse span condition positive negative =>
    .ifElse span condition.zeroed positive.zeroed negative.zeroed
  | .whileLoop span condition body => .whileLoop span condition.zeroed body.zeroed
  | .doWhile span body condition => .doWhile span body.zeroed condition.zeroed
  | .forLoop span initializer test after body =>
    .forLoop span (initializer.map ForInitializer.zeroed) (test.map Expr.zeroed)
      (after.map Expr.zeroed) body.zeroed
  | .returnValue span value => .returnValue span (value.map Expr.zeroed)
  | other => other

/-- Statements with zero for every integer. -/
def allZeroed : List Stmt → List Stmt
  | [] => []
  | first :: others => first.zeroed :: allZeroed others

end

@[simp]
theorem isDeclaration_zeroed (statement : Stmt) :
    statement.zeroed.isDeclaration = statement.isDeclaration := by
  cases statement <;> rfl

end Stmt

/-- A program with zero for every integer. -/
def Program.zeroed (program : Program) : Program :=
  { program with
    functions := program.functions.map fun function =>
      { function with
        body := ⟨function.body.span, Stmt.allZeroed function.body.statements⟩ } }

/-! ## Grammatical trees -/

/-- The text of an integer literal is grammatical at its place. -/
def FitsPlace (entry : String × Bool) : Prop :=
  entry.1.toList ≠ [] ∧ entry.1.toList.all Char.isDigit = true ∧
    Text.digitsValue entry.1.toList ≤ literalLimit entry.2

theorem literalLimit_operand (op : UnaryOp) : literalLimit (op = .negate) = op.largestOperand := by
  cases op <;> rfl

theorem largestLiteral_eq : largestLiteral = literalLimit false :=
  rfl

/-- The literal zero is grammatical at every place. -/
theorem fitsPlace_zero (negated : Bool) : FitsPlace ("0", negated) := by
  unfold FitsPlace
  cases negated <;> decide

namespace Expr

mutual

theorem grammatical_iff (value : Expr) (negated : Bool) :
    value.GrammaticalUpTo (literalLimit negated) ↔
      value.zeroed.GrammaticalUpTo (literalLimit negated) ∧
        ∀ entry ∈ value.integers negated, FitsPlace entry := by
  match value with
  | .literal ⟨.integer, text, span⟩ =>
    rw [integers, List.forall_mem_singleton]
    exact ⟨fun fits => ⟨fitsPlace_zero negated, fits⟩, And.right⟩
  | .literal ⟨.character, text, span⟩ => simp [zeroed, Literal.zeroed, integers]
  | .identifier _ => simp [zeroed, integers]
  | .group _ inner =>
    simp only [zeroed, GrammaticalUpTo, integers, largestLiteral_eq, grammatical_iff inner false]
  | .call _ _ arguments =>
    simp only [zeroed, GrammaticalUpTo, integers, allGrammatical_iff arguments]
    tauto
  | .binary _ op _ left right =>
    simp only [zeroed, GrammaticalUpTo, integers, List.forall_mem_append, level_zeroed,
      largestLiteral_eq, grammatical_iff left false, grammatical_iff right false]
    tauto
  | .unary _ op _ operand =>
    simp only [zeroed, GrammaticalUpTo, integers, level_zeroed, ← literalLimit_operand,
      grammatical_iff operand (op = .negate)]
    tauto
  | .step _ _ _ _ => simp [zeroed, integers]
  | .assign _ _ _ assigned =>
    simp only [zeroed, GrammaticalUpTo, integers, largestLiteral_eq, grammatical_iff assigned false]
    tauto

theorem allGrammatical_iff (values : List Expr) :
    AllGrammatical values ↔
      AllGrammatical (allZeroed values) ∧ ∀ entry ∈ integersIn values, FitsPlace entry := by
  match values with
  | [] => simp [allZeroed, AllGrammatical, integersIn]
  | first :: others =>
    simp only [allZeroed, AllGrammatical, integersIn, List.forall_mem_append, largestLiteral_eq,
      grammatical_iff first false, allGrammatical_iff others]
    tauto

end

theorem optionGrammatical_iff (value : Option Expr) :
    (∀ present ∈ value, present.Grammatical) ↔
      (∀ present ∈ value.map zeroed, present.Grammatical) ∧
        ∀ entry ∈ optionIntegers value, FitsPlace entry := by
  cases value with
  | none => simp [optionIntegers]
  | some present =>
    simpa [optionIntegers, Grammatical, largestLiteral_eq] using grammatical_iff present false

end Expr

theorem Declarator.allGrammatical_iff (declarators : List Declarator) :
    AllGrammatical declarators ↔
      AllGrammatical (declarators.map zeroed) ∧
        ∀ entry ∈ integersIn declarators, FitsPlace entry := by
  have each (declarator : Declarator) := Expr.optionGrammatical_iff declarator.initializer
  simp only [AllGrammatical, integersIn, List.mem_flatMap, List.forall_mem_map, zeroed, ne_eq,
    List.map_eq_nil_iff]
  constructor
  · rintro ⟨nonempty, all⟩
    refine ⟨⟨nonempty, fun declarator declared => ?_⟩,
      fun entry ⟨declarator, declared, found⟩ => ?_⟩
    · exact ⟨(all declarator declared).1, ((each declarator).mp (all declarator declared).2).1⟩
    · exact ((each declarator).mp (all declarator declared).2).2 entry found
  · rintro ⟨⟨nonempty, all⟩, fits⟩
    refine ⟨nonempty, fun declarator declared => ⟨(all declarator declared).1, ?_⟩⟩
    exact (each declarator).mpr
      ⟨(all declarator declared).2, fun entry found => fits entry ⟨declarator, declared, found⟩⟩

theorem ForInitializer.grammatical_iff (initializer : Option ForInitializer) :
    (∀ first ∈ initializer, first.Grammatical) ↔
      (∀ first ∈ initializer.map zeroed, first.Grammatical) ∧
        ∀ entry ∈ integers initializer, FitsPlace entry := by
  match initializer with
  | none => simp [integers]
  | some (.declaration declarators) =>
    simpa [integers, zeroed, Grammatical] using Declarator.allGrammatical_iff declarators
  | some (.expression value) =>
    simpa [integers, zeroed, Grammatical, Expr.Grammatical, largestLiteral_eq] using
      Expr.grammatical_iff value false

namespace Stmt

@[simp]
theorem endsOpen_zeroed (statement : Stmt) : statement.zeroed.endsOpen = statement.endsOpen := by
  match statement with
  | .ifElse _ _ _ negative => exact endsOpen_zeroed negative
  | .whileLoop _ _ body | .forLoop _ _ _ _ body => exact endsOpen_zeroed body
  | .declaration _ _ | .expression _ _ | .block _ _ | .ifThen _ _ _ | .doWhile _ _ _
  | .breakLoop _ | .continueLoop _ | .returnValue _ _ | .empty _ => rfl

mutual

theorem grammatical_iff (statement : Stmt) :
    statement.Grammatical ↔
      statement.zeroed.Grammatical ∧ ∀ entry ∈ statement.integers, FitsPlace entry := by
  have condition_iff (condition : Expr) := Expr.grammatical_iff condition false
  match statement with
  | .declaration _ declarators => exact Declarator.allGrammatical_iff declarators
  | .expression _ value => exact condition_iff value
  | .block _ statements => exact allGrammatical_iff statements
  | .ifThen _ condition positive =>
    simp only [zeroed, Grammatical, integers, List.forall_mem_append, isDeclaration_zeroed,
      Expr.Grammatical, largestLiteral_eq, condition_iff condition, grammatical_iff positive]
    tauto
  | .ifElse _ condition positive negative =>
    simp only [zeroed, Grammatical, integers, List.forall_mem_append, isDeclaration_zeroed,
      endsOpen_zeroed, Expr.Grammatical, largestLiteral_eq, condition_iff condition,
      grammatical_iff positive, grammatical_iff negative]
    tauto
  | .whileLoop _ condition body | .doWhile _ body condition =>
    simp only [zeroed, Grammatical, integers, List.forall_mem_append, isDeclaration_zeroed,
      Expr.Grammatical, largestLiteral_eq, condition_iff condition, grammatical_iff body]
    tauto
  | .forLoop _ initializer test after body =>
    simp only [zeroed, Grammatical, integers, List.forall_mem_append, isDeclaration_zeroed,
      ForInitializer.grammatical_iff initializer, Expr.optionGrammatical_iff test,
      Expr.optionGrammatical_iff after, grammatical_iff body]
    tauto
  | .breakLoop _ | .continueLoop _ => simp [zeroed, integers]
  | .returnValue _ value => exact Expr.optionGrammatical_iff value
  | .empty _ => simp [zeroed, integers]

theorem allGrammatical_iff (statements : List Stmt) :
    AllGrammatical statements ↔
      AllGrammatical (allZeroed statements) ∧ ∀ entry ∈ integersIn statements, FitsPlace entry := by
  match statements with
  | [] => simp [allZeroed, AllGrammatical, integersIn]
  | first :: others =>
    simp only [allZeroed, AllGrammatical, integersIn, List.forall_mem_append,
      grammatical_iff first, allGrammatical_iff others]
    tauto

end

end Stmt

/-- A program is grammatical exactly when it is with zero for every integer and every integer is
within the limit of its place. -/
theorem Program.grammatical_iff (program : Program) :
    program.Grammatical ↔
      program.zeroed.Grammatical ∧ ∀ entry ∈ program.integers, FitsPlace entry := by
  have each (function : FunctionDef) := Stmt.allGrammatical_iff function.body.statements
  simp only [Grammatical, zeroed, integers, List.forall_mem_map, List.mem_flatMap]
  constructor
  · intro all
    refine ⟨fun function defined => ?_, fun entry ⟨function, defined, found⟩ => ?_⟩
    · obtain ⟨name, parameters, body⟩ := all function defined
      exact ⟨name, parameters, ((each function).mp body).1⟩
    · exact ((each function).mp (all function defined).body).2 entry found
  · rintro ⟨all, fits⟩ function defined
    obtain ⟨name, parameters, body⟩ := all function defined
    exact ⟨name, parameters,
      (each function).mpr ⟨body, fun entry found => fits entry ⟨function, defined, found⟩⟩⟩

/-! ## Integer literals as they are written -/

/-- The text of a lexeme that is an integer literal. -/
def Lexeme.integers (lexeme : Lexeme) : List String :=
  if lexeme.kind = .integerLiteral then [lexeme.text] else []

@[simp]
theorem Lexeme.integers_keyword (word : Keyword) : (Lexeme.keyword word).integers = [] :=
  rfl

@[simp]
theorem Lexeme.integers_mark (punctuator : Punctuator) : (Lexeme.mark punctuator).integers = [] :=
  rfl

@[simp]
theorem Ident.integers_lexeme (name : Ident) : name.lexeme.integers = [] :=
  rfl

/-- The text of a part that is an integer literal. -/
@[simp]
def Written.integers : Written → List String
  | .plain lexeme => lexeme.integers
  | .target _ => []
  | .noParameters => []

/-- However parts are written, the integer literals are those of the parts. -/
theorem Writes.integers {parts : List Written} {lexemes : List Lexeme}
    (writes : Writes parts lexemes) :
    lexemes.flatMap Lexeme.integers = parts.flatMap Written.integers := by
  induction parts generalizing lexemes with
  | nil =>
    cases writes
    rfl
  | cons part others ih =>
    obtain ⟨front, back, rfl, admits, later⟩ := writes
    rw [List.flatMap_append, ih later, List.flatMap_cons]
    congr 1
    cases part with
    | plain lexeme =>
      cases admits
      exact List.flatMap_singleton _ _
    | target name =>
      obtain ⟨depth, rfl⟩ := admits
      simp
    | noParameters => rcases admits with rfl | rfl <;> rfl

theorem integers_commaSeparated (lists : List (List Written)) :
    (commaSeparated lists).flatMap Written.integers =
      lists.flatMap fun parts => parts.flatMap Written.integers := by
  induction lists with
  | nil => rfl
  | cons first others ih =>
    cases others with
    | nil => simp
    | cons second more =>
      rw [commaSeparated_cons (List.cons_ne_nil _ _), List.flatMap_append, List.flatMap_cons, ih]
      rfl

/-- The texts of integer literals. -/
def literalTexts (entries : List (String × Bool)) : List String :=
  entries.map Prod.fst

@[simp]
theorem literalTexts_append (front back : List (String × Bool)) :
    literalTexts (front ++ back) = literalTexts front ++ literalTexts back :=
  List.map_append

/-- A lexeme that is zero if it is an integer literal. -/
def Lexeme.zeroed (lexeme : Lexeme) : Lexeme :=
  if lexeme.kind = .integerLiteral then ⟨.integerLiteral, "0"⟩ else lexeme

/-- A part with zero for an integer literal. -/
def Written.zeroed : Written → Written
  | .plain lexeme => .plain lexeme.zeroed
  | other => other

@[simp]
theorem Written.zeroed_keyword (word : Keyword) : (keyword word).zeroed = keyword word :=
  rfl

@[simp]
theorem Written.zeroed_mark (punctuator : Punctuator) : (mark punctuator).zeroed = mark punctuator :=
  rfl

@[simp]
theorem Written.zeroed_name (ident : Ident) : (name ident).zeroed = name ident :=
  rfl

@[simp]
theorem Written.zeroed_target (ident : Ident) : (target ident).zeroed = target ident :=
  rfl

theorem Writes.zeroed {parts : List Written} {lexemes : List Lexeme}
    (writes : Writes parts lexemes) :
    Writes (parts.map Written.zeroed) (lexemes.map Lexeme.zeroed) := by
  induction parts generalizing lexemes with
  | nil =>
    cases writes
    rfl
  | cons part others ih =>
    obtain ⟨front, back, rfl, admits, later⟩ := writes
    refine ⟨front.map Lexeme.zeroed, back.map Lexeme.zeroed, List.map_append, ?_, ih later⟩
    cases part with
    | plain lexeme =>
      cases admits
      rfl
    | target name =>
      obtain ⟨depth, rfl⟩ := admits
      exact ⟨depth, by simp [Lexeme.zeroed, Lexeme.mark, Ident.lexeme]⟩
    | noParameters =>
      rcases admits with rfl | rfl
      · exact .inl rfl
      · exact .inr rfl

theorem zeroed_commaSeparated (lists : List (List Written)) :
    (commaSeparated lists).map Written.zeroed =
      commaSeparated (lists.map (List.map Written.zeroed)) := by
  induction lists with
  | nil => rfl
  | cons first others ih =>
    cases others with
    | nil => simp
    | cons second more =>
      have nonempty : (second :: more).map (List.map Written.zeroed) ≠ [] := by simp
      rw [commaSeparated_cons (List.cons_ne_nil _ _), List.map_append, List.map_cons, ih]
      exact (commaSeparated_cons nonempty _).symm

/-- Whether each integer literal stands right after a minus sign. -/
def literalPlaces (entries : List (String × Bool)) : List Bool :=
  entries.map Prod.snd

@[simp]
theorem literalPlaces_append (front back : List (String × Bool)) :
    literalPlaces (front ++ back) = literalPlaces front ++ literalPlaces back :=
  List.map_append

/-! ## Trees and their zeros -/

namespace Expr

mutual

/-- Zeros are written in place of integers, the integers of an expression are those that are written,
and neither the values of integers nor spans change where integers stand. -/
theorem zeroed_spec (value : Expr) (negated : Bool) :
    value.zeroed.written = value.written.map Written.zeroed ∧
      value.written.flatMap Written.integers = literalTexts (value.integers negated) ∧
      literalPlaces (value.zeroed.erased.integers negated) =
        literalPlaces (value.integers negated) := by
  match value with
  | .literal ⟨.integer, _, _⟩ | .literal ⟨.character, _, _⟩ | .identifier _
  | .step _ _ .before _ | .step _ _ .after _ => exact ⟨rfl, rfl, rfl⟩
  | .group _ inner => simp [zeroed, erased, written, integers, zeroed_spec inner false]
  | .call _ _ arguments =>
    simp [zeroed, erased, written, integers, integers_commaSeparated, zeroed_commaSeparated,
      allZeroed_spec arguments]
  | .binary _ op _ left right =>
    simp [zeroed, erased, written, integers, zeroed_spec left false, zeroed_spec right false]
  | .unary _ op _ operand =>
    simp [zeroed, erased, written, integers, zeroed_spec operand (op = .negate)]
  | .assign _ _ _ assigned =>
    simp [zeroed, erased, written, integers, zeroed_spec assigned false]

theorem allZeroed_spec (values : List Expr) :
    allWritten (allZeroed values) = (allWritten values).map (List.map Written.zeroed) ∧
      ((allWritten values).flatMap fun parts => parts.flatMap Written.integers) =
        literalTexts (integersIn values) ∧
      literalPlaces (integersIn (allErased (allZeroed values))) =
        literalPlaces (integersIn values) := by
  match values with
  | [] => exact ⟨rfl, rfl, rfl⟩
  | first :: others =>
    simp [allZeroed, allErased, allWritten, integersIn, zeroed_spec first false,
      allZeroed_spec others]

end

theorem optionZeroed_spec (value : Option Expr) :
    optionWritten (value.map zeroed) = (optionWritten value).map Written.zeroed ∧
      (optionWritten value).flatMap Written.integers = literalTexts (optionIntegers value) ∧
      literalPlaces (optionIntegers ((value.map zeroed).map erased)) =
        literalPlaces (optionIntegers value) := by
  cases value with
  | none => exact ⟨rfl, rfl, rfl⟩
  | some present => exact zeroed_spec present false

end Expr

theorem Declarator.allZeroed_spec (declarators : List Declarator) :
    allWritten (declarators.map zeroed) = (allWritten declarators).map Written.zeroed ∧
      (allWritten declarators).flatMap Written.integers = literalTexts (integersIn declarators) ∧
      literalPlaces (integersIn ((declarators.map zeroed).map erased)) =
        literalPlaces (integersIn declarators) := by
  have each (declarator : Declarator) :
      declarator.zeroed.written = declarator.written.map Written.zeroed ∧
        declarator.written.flatMap Written.integers =
          literalTexts (Expr.optionIntegers declarator.initializer) := by
    obtain ⟨span, name, initial⟩ := declarator
    cases initial with
    | none => exact ⟨rfl, rfl⟩
    | some value => simp [zeroed, written, Expr.optionIntegers, Expr.zeroed_spec value false]
  refine ⟨?_, ?_, ?_⟩
  · simp [allWritten, zeroed_commaSeparated, Function.comp_def, each]
  · simp [allWritten, integersIn, integers_commaSeparated, List.flatMap_map, each, literalTexts,
      List.map_flatMap]
  · simp only [integersIn, literalPlaces, List.map_flatMap, List.flatMap_map]
    exact congrArg (List.flatMap · declarators)
      (funext fun declarator => (Expr.optionZeroed_spec declarator.initializer).2.2)

theorem ForInitializer.zeroed_spec (initializer : Option ForInitializer) :
    written (initializer.map zeroed) = (written initializer).map Written.zeroed ∧
      (written initializer).flatMap Written.integers = literalTexts (integers initializer) ∧
      literalPlaces (integers ((initializer.map zeroed).map erased)) =
        literalPlaces (integers initializer) := by
  match initializer with
  | none => exact ⟨rfl, rfl, rfl⟩
  | some (.declaration declarators) => exact Declarator.allZeroed_spec declarators
  | some (.expression value) =>
    simp [written, zeroed, erased, integers, Expr.zeroed_spec value false]

namespace Stmt

mutual

theorem zeroed_spec (statement : Stmt) :
    statement.zeroed.written = statement.written.map Written.zeroed ∧
      statement.written.flatMap Written.integers = literalTexts statement.integers ∧
      literalPlaces statement.zeroed.erased.integers = literalPlaces statement.integers := by
  have spec (value : Expr) := Expr.zeroed_spec value false
  match statement with
  | .declaration _ declarators => exact Declarator.allZeroed_spec declarators
  | .expression _ value => simp [zeroed, erased, written, integers, spec]
  | .block _ statements =>
    simp [zeroed, erased, written, integers, allZeroed_spec statements]
  | .ifThen _ condition inner | .whileLoop _ condition inner | .doWhile _ inner condition =>
    simp [zeroed, erased, written, integers, Expr.conditionWritten, spec, zeroed_spec inner]
  | .ifElse _ condition positive negative =>
    simp [zeroed, erased, written, integers, Expr.conditionWritten, spec, zeroed_spec positive,
      zeroed_spec negative]
  | .forLoop _ initializer test after inner =>
    simp [-Option.map_map, zeroed, erased, written, integers, ForInitializer.zeroed_spec,
      Expr.optionZeroed_spec, zeroed_spec inner]
  | .breakLoop _ | .continueLoop _ | .empty _ => exact ⟨rfl, rfl, rfl⟩
  | .returnValue _ value =>
    simp [-Option.map_map, zeroed, erased, written, integers, Expr.optionZeroed_spec]

theorem allZeroed_spec (statements : List Stmt) :
    allWritten (allZeroed statements) = (allWritten statements).map Written.zeroed ∧
      (allWritten statements).flatMap Written.integers = literalTexts (integersIn statements) ∧
      literalPlaces (integersIn (allErased (allZeroed statements))) =
        literalPlaces (integersIn statements) := by
  match statements with
  | [] => exact ⟨rfl, rfl, rfl⟩
  | first :: others =>
    simp [allZeroed, allErased, allWritten, integersIn, zeroed_spec first, allZeroed_spec others]

end

end Stmt

theorem Parameter.allWritten_zeroed (parameters : List Parameter) :
    (allWritten parameters).map Written.zeroed = allWritten parameters ∧
      (allWritten parameters).flatMap Written.integers = [] := by
  have each (parameter : Parameter) :
      parameter.written.map Written.zeroed = parameter.written := rfl
  cases parameters with
  | nil => exact ⟨rfl, rfl⟩
  | cons first others =>
    constructor
    · simp [allWritten, zeroed_commaSeparated, Function.comp_def, each]
    · simp [allWritten, integers_commaSeparated, Parameter.written]

/-- A program with zeros is written as the program, with zeros. -/
theorem Program.written_zeroed (program : Program) :
    program.zeroed.written = program.written.map Written.zeroed := by
  simp [written, zeroed, List.map_flatMap, List.flatMap_map, FunctionDef.written,
    Stmt.allZeroed_spec, Parameter.allWritten_zeroed]

/-- The integer literals of a program are those that are written. -/
theorem Program.integers_written (program : Program) :
    program.written.flatMap Written.integers = literalTexts program.integers := by
  have each (function : FunctionDef) : function.written.flatMap Written.integers =
      literalTexts (Stmt.integersIn function.body.statements) := by
    simp [FunctionDef.written, Parameter.allWritten_zeroed, Stmt.allZeroed_spec]
  simp [written, integers, List.flatMap_assoc, each, literalTexts, List.map_flatMap]

theorem Program.places_zeroed (program : Program) :
    literalPlaces program.zeroed.erased.integers = literalPlaces program.integers := by
  simp only [integers, zeroed, erased, List.flatMap_map, FunctionDef.erased, literalPlaces,
    List.map_flatMap]
  exact congrArg (List.flatMap · program.functions)
    (funext fun function => (Stmt.allZeroed_spec function.body.statements).2.2)

/-- Two programs have the same integers if they are the same with zeros and without spans, and
write the same integers. -/
theorem Program.integers_eq {program other : Program}
    (same : program.zeroed.erased = other.zeroed.erased)
    (texts_eq : literalTexts program.integers = literalTexts other.integers) :
    program.integers = other.integers := by
  have places_eq : literalPlaces program.integers = literalPlaces other.integers := by
    rw [← places_zeroed, same, places_zeroed]
  exact (List.zip_of_prod texts_eq places_eq).trans (List.zip_of_prod rfl rfl).symm

end SmallC
