import SmallC.Proofs.Token.Lexeme
import SmallC.Proofs.Tree.Grammar

/-!
# Trees as they are written

A tree is written as the sequence of its tokens.  At two kinds of places a text has a choice that
the tree does not show: the target of an assignment may stand in parentheses, and an empty list of
parameters may be written with the word `void`.  Everything else is written in one way.
-/

namespace SmallC

/-! ## Operators -/

/-- The punctuator of an operator between two operands. -/
def BinaryOp.mark : BinaryOp → Punctuator
  | .arithmetic .add => .plus
  | .arithmetic .subtract => .minus
  | .arithmetic .multiply => .asterisk
  | .arithmetic .divide => .slash
  | .arithmetic .modulus => .percent
  | .arithmetic .bitwiseAnd => .ampersand
  | .arithmetic .bitwiseOr => .bar
  | .arithmetic .bitwiseXor => .caret
  | .arithmetic .shiftLeft => .shiftLeft
  | .arithmetic .shiftRight => .shiftRight
  | .compare .equal => .equalEqual
  | .compare .notEqual => .notEqual
  | .compare .less => .less
  | .compare .lessOrEqual => .lessEqual
  | .compare .greater => .greater
  | .compare .greaterOrEqual => .greaterEqual
  | .logical .and => .andAnd
  | .logical .or => .orOr

/-- The punctuator of an assignment, plain or with an operator. -/
def assignmentMark : Option ArithmeticOp → Punctuator
  | none => .equal
  | some .add => .plusEqual
  | some .subtract => .minusEqual
  | some .multiply => .asteriskEqual
  | some .divide => .slashEqual
  | some .modulus => .percentEqual
  | some .bitwiseAnd => .ampersandEqual
  | some .bitwiseOr => .barEqual
  | some .bitwiseXor => .caretEqual
  | some .shiftLeft => .shiftLeftEqual
  | some .shiftRight => .shiftRightEqual

/-- The punctuator of an operator before its operand. -/
def UnaryOp.mark : UnaryOp → Punctuator
  | .logicalNot => .bang
  | .bitwiseNot => .tilde
  | .negate => .minus

/-- The punctuator of a step operator. -/
def StepOp.mark : StepOp → Punctuator
  | .increment => .plusPlus
  | .decrement => .minusMinus

namespace Punctuator

variable {mark : Punctuator}

theorem binaryOp?_eq_some_iff {op : BinaryOp} : mark.binaryOp? = some op ↔ mark = op.mark := by
  constructor
  · intro found
    cases mark <;> cases found <;> rfl
  · rintro rfl
    rcases op with op | op | op <;> cases op <;> rfl

theorem assignment?_eq_some_iff {op : Option ArithmeticOp} :
    mark.assignment? = some op ↔ mark = assignmentMark op := by
  constructor
  · intro found
    cases mark <;> cases found <;> rfl
  · rintro rfl
    rcases op with _ | op
    · rfl
    · cases op <;> rfl

theorem unaryOp?_eq_some_iff {op : UnaryOp} : mark.unaryOp? = some op ↔ mark = op.mark := by
  constructor
  · intro found
    cases mark <;> cases found <;> rfl
  · rintro rfl
    cases op <;> rfl

theorem stepOp?_eq_some_iff {op : StepOp} : mark.stepOp? = some op ↔ mark = op.mark := by
  constructor
  · intro found
    cases mark <;> cases found <;> rfl
  · rintro rfl
    cases op <;> rfl

end Punctuator

/-! ## Parts -/

/-- A name as a lexeme. -/
def Ident.lexeme (name : Ident) : Lexeme :=
  ⟨.identifier, name.name⟩

/-- A literal as a lexeme. -/
def Literal.lexeme (literal : Literal) : Lexeme :=
  match literal.kind with
  | .integer => ⟨.integerLiteral, literal.text⟩
  | .character => ⟨.charLiteral, literal.text⟩

/-- A part of a tree as it is written. -/
inductive Written where
  | plain (lexeme : Lexeme)
  /-- The target of an assignment, in any number of parentheses. -/
  | target (name : Ident)
  /-- A list of no parameters, with or without the word `void`. -/
  | noParameters

namespace Written

/-- A reserved word. -/
abbrev keyword (word : Keyword) : Written :=
  .plain (.keyword word)

/-- A punctuator. -/
abbrev mark (punctuator : Punctuator) : Written :=
  .plain (.mark punctuator)

/-- A name. -/
abbrev name (name : Ident) : Written :=
  .plain name.lexeme

/-- The lexemes of a part, written without anything that can be left out. -/
def lexemes : Written → List Lexeme
  | .plain lexeme => [lexeme]
  | .target name => [name.lexeme]
  | .noParameters => [.mark .openParen, .mark .closeParen]

/-- The ways to write a part. -/
def Admits : Written → List Lexeme → Prop
  | .plain lexeme, lexemes => lexemes = [lexeme]
  | .target name, lexemes => ∃ depth, lexemes =
      List.replicate depth (.mark .openParen) ++
        name.lexeme :: List.replicate depth (.mark .closeParen)
  | .noParameters, lexemes =>
    lexemes = [.mark .openParen, .mark .closeParen] ∨
      lexemes = [.mark .openParen, .keyword .voidWord, .mark .closeParen]

end Written

/-- The ways to write parts one after another. -/
def Writes : List Written → List Lexeme → Prop
  | [], lexemes => lexemes = []
  | part :: others, lexemes =>
    ∃ front back, lexemes = front ++ back ∧ part.Admits front ∧ Writes others back

/-- The lexemes of parts, written without anything that can be left out. -/
def lexemesOf (parts : List Written) : List Lexeme :=
  parts.flatMap Written.lexemes

/-- Parts with a comma between any two. -/
def commaSeparated (parts : List (List Written)) : List Written :=
  [Written.mark .comma].intercalate parts

@[simp]
theorem commaSeparated_singleton (parts : List Written) : commaSeparated [parts] = parts := by
  simp [commaSeparated, List.intercalate]

theorem commaSeparated_cons {others : List (List Written)} (nonempty : others ≠ [])
    (first : List Written) :
    commaSeparated (first :: others) = first ++ .mark .comma :: commaSeparated others := by
  cases others with
  | nil => contradiction
  | cons second more => simp [commaSeparated, List.intercalate]

/-! ## Trees -/

namespace Expr

mutual

/-- An expression as it is written. -/
def written : Expr → List Written
  | .literal constant => [.plain constant.lexeme]
  | .identifier name => [.name name]
  | .group _ inner => .mark .openParen :: (inner.written ++ [.mark .closeParen])
  | .call _ callee arguments =>
    .name callee :: .mark .openParen ::
      (commaSeparated (allWritten arguments) ++ [.mark .closeParen])
  | .binary _ op _ left right => left.written ++ .mark op.mark :: right.written
  | .unary _ op _ operand => .mark op.mark :: operand.written
  | .step _ op .before target => [.mark op.mark, .name target]
  | .step _ op .after target => [.name target, .mark op.mark]
  | .assign _ target op value =>
    .target target :: .mark (assignmentMark (op.map Prod.fst)) :: value.written

/-- Expressions as they are written. -/
def allWritten : List Expr → List (List Written)
  | [] => []
  | first :: others => first.written :: allWritten others

end

/-- An expression that may be missing, as it is written. -/
def optionWritten : Option Expr → List Written
  | none => []
  | some value => value.written

end Expr

/-- A declarator as it is written. -/
def Declarator.written (declarator : Declarator) : List Written :=
  match declarator.initializer with
  | none => [.name declarator.name]
  | some value => .name declarator.name :: .mark .equal :: value.written

/-- A declaration as it is written, with its semicolon. -/
def Declarator.allWritten (declarators : List Declarator) : List Written :=
  .keyword .intWord :: (commaSeparated (declarators.map Declarator.written) ++ [.mark .semicolon])

/-- The first part of a `for` statement as it is written, with its semicolon. -/
def ForInitializer.written : Option ForInitializer → List Written
  | none => [.mark .semicolon]
  | some (.declaration declarators) => Declarator.allWritten declarators
  | some (.expression value) => value.written ++ [.mark .semicolon]

/-- A condition as it is written, with its parentheses. -/
def Expr.conditionWritten (condition : Expr) : List Written :=
  .mark .openParen :: (condition.written ++ [.mark .closeParen])

namespace Stmt

mutual

/-- A statement as it is written. -/
def written : Stmt → List Written
  | .declaration _ declarators => Declarator.allWritten declarators
  | .expression _ value => value.written ++ [.mark .semicolon]
  | .block _ statements => .mark .openBrace :: (allWritten statements ++ [.mark .closeBrace])
  | .ifThen _ condition positive =>
    .keyword .ifWord :: (condition.conditionWritten ++ positive.written)
  | .ifElse _ condition positive negative =>
    .keyword .ifWord ::
      (condition.conditionWritten ++ positive.written ++ .keyword .elseWord :: negative.written)
  | .whileLoop _ condition body =>
    .keyword .whileWord :: (condition.conditionWritten ++ body.written)
  | .doWhile _ body condition =>
    .keyword .doWord ::
      (body.written ++ .keyword .whileWord :: (condition.conditionWritten ++ [.mark .semicolon]))
  | .forLoop _ initializer test after body =>
    .keyword .forWord :: .mark .openParen ::
      (ForInitializer.written initializer ++ (Expr.optionWritten test ++ .mark .semicolon ::
        (Expr.optionWritten after ++ .mark .closeParen :: body.written)))
  | .breakLoop _ => [.keyword .breakWord, .mark .semicolon]
  | .continueLoop _ => [.keyword .continueWord, .mark .semicolon]
  | .returnValue _ value =>
    .keyword .returnWord :: (Expr.optionWritten value ++ [.mark .semicolon])
  | .empty _ => [.mark .semicolon]

/-- Statements as they are written. -/
def allWritten : List Stmt → List Written
  | [] => []
  | first :: others => first.written ++ allWritten others

end

end Stmt

/-- The word for a type. -/
def TypeName.keyword : TypeName → Keyword
  | .int => .intWord
  | .void => .voidWord

/-- A parameter as it is written. -/
def Parameter.written (parameter : Parameter) : List Written :=
  [.keyword .intWord, .name parameter.name]

/-- Parameters as they are written, with their parentheses. -/
def Parameter.allWritten : List Parameter → List Written
  | [] => [.noParameters]
  | first :: others =>
    .mark .openParen ::
      (commaSeparated ((first :: others).map Parameter.written) ++ [.mark .closeParen])

/-- A function as it is written. -/
def FunctionDef.written (function : FunctionDef) : List Written :=
  .keyword function.returnType.keyword :: .name function.name ::
    (Parameter.allWritten function.parameters ++
      .mark .openBrace :: (Stmt.allWritten function.body.statements ++ [.mark .closeBrace]))

/-- A program as it is written. -/
def Program.written (program : Program) : List Written :=
  program.functions.flatMap FunctionDef.written

/-- The text of a program: its tokens with a space between any two. -/
def Program.spacedText (program : Program) : List Char :=
  spaced (lexemesOf program.written)

/-! ## Lexemes of grammatical trees -/

/-- The lexemes of a part are sound. -/
def Written.Sound (part : Written) : Prop :=
  ∀ lexeme ∈ part.lexemes, lexeme.Sound

namespace Written

theorem sound_plain {lexeme : Lexeme} (sound : lexeme.Sound) : (plain lexeme).Sound :=
  List.forall_mem_singleton.mpr sound

@[simp]
theorem sound_keyword (word : Keyword) : (keyword word).Sound :=
  sound_plain (Lexeme.sound_keyword word)

@[simp]
theorem sound_mark (punctuator : Punctuator) : (mark punctuator).Sound :=
  sound_plain (Lexeme.sound_mark punctuator)

@[simp]
theorem sound_noParameters : noParameters.Sound := by
  simp [Sound, lexemes, Lexeme.sound_mark]

end Written

theorem Ident.Grammatical.sound {name : Ident} (grammatical : name.Grammatical) :
    (Written.name name).Sound :=
  Written.sound_plain grammatical

theorem Ident.Grammatical.sound_target {name : Ident} (grammatical : name.Grammatical) :
    (Written.target name).Sound :=
  grammatical.sound

theorem Literal.Grammatical.sound {limit : Nat} {literal : Literal}
    (grammatical : literal.Grammatical limit) : (Written.plain literal.lexeme).Sound := by
  obtain ⟨kind, text, span⟩ := literal
  cases kind with
  | integer => exact Written.sound_plain ⟨grammatical.1, grammatical.2.1⟩
  | character => exact Written.sound_plain grammatical

/-- All parts are sound. -/
def SoundParts (parts : List Written) : Prop :=
  ∀ part ∈ parts, part.Sound

@[simp]
theorem soundParts_nil : SoundParts [] :=
  nofun

@[simp]
theorem soundParts_cons {part : Written} {others : List Written} :
    SoundParts (part :: others) ↔ part.Sound ∧ SoundParts others :=
  List.forall_mem_cons

@[simp]
theorem soundParts_append {first second : List Written} :
    SoundParts (first ++ second) ↔ SoundParts first ∧ SoundParts second :=
  List.forall_mem_append

theorem soundParts_commaSeparated {lists : List (List Written)}
    (sound : ∀ parts ∈ lists, SoundParts parts) : SoundParts (commaSeparated lists) := by
  induction lists with
  | nil => exact soundParts_nil
  | cons first others ih =>
    rw [List.forall_mem_cons] at sound
    cases others with
    | nil =>
      rw [commaSeparated_singleton]
      exact sound.1
    | cons second more =>
      rw [commaSeparated_cons (List.cons_ne_nil _ _)]
      simpa using ⟨sound.1, ih sound.2⟩

namespace Expr

mutual

theorem soundParts_written (value : Expr) {limit : Nat}
    (grammatical : value.GrammaticalUpTo limit) : SoundParts value.written := by
  cases value with
  | literal constant | identifier name =>
    rw [GrammaticalUpTo] at grammatical
    simpa [written] using grammatical.sound
  | group span inner =>
    rw [GrammaticalUpTo] at grammatical
    simpa [written] using soundParts_written inner grammatical
  | call span callee arguments =>
    rw [GrammaticalUpTo] at grammatical
    have argumentsSound := soundParts_allWritten arguments grammatical.2
    simpa [written] using ⟨grammatical.1.sound, soundParts_commaSeparated argumentsSound⟩
  | binary span op opSpan left right =>
    rw [GrammaticalUpTo] at grammatical
    obtain ⟨⟨-, leftGrammatical⟩, -, rightGrammatical⟩ := grammatical
    simpa [written] using
      ⟨soundParts_written left leftGrammatical, soundParts_written right rightGrammatical⟩
  | unary span op opSpan operand =>
    rw [GrammaticalUpTo] at grammatical
    simpa [written] using soundParts_written operand grammatical.2
  | step span op fixity target =>
    rw [GrammaticalUpTo] at grammatical
    cases fixity with
    | before | after => simpa [written] using grammatical.sound
  | assign span target op value =>
    rw [GrammaticalUpTo] at grammatical
    simpa [written] using ⟨grammatical.1.sound_target, soundParts_written value grammatical.2⟩

theorem soundParts_allWritten (values : List Expr) (grammatical : AllGrammatical values) :
    ∀ parts ∈ allWritten values, SoundParts parts := by
  cases values with
  | nil => exact nofun
  | cons first others =>
    exact List.forall_mem_cons.mpr
      ⟨soundParts_written first grammatical.1, soundParts_allWritten others grammatical.2⟩

end

theorem soundParts_optionWritten {value : Option Expr}
    (grammatical : ∀ present ∈ value, present.Grammatical) :
    SoundParts (optionWritten value) := by
  cases value with
  | none => exact soundParts_nil
  | some present => exact soundParts_written present (grammatical present rfl)

theorem soundParts_conditionWritten {condition : Expr} (grammatical : condition.Grammatical) :
    SoundParts condition.conditionWritten := by
  simpa [conditionWritten] using soundParts_written condition grammatical

end Expr

theorem Declarator.soundParts_allWritten {declarators : List Declarator}
    (grammatical : Declarator.AllGrammatical declarators) :
    SoundParts (Declarator.allWritten declarators) := by
  have eachSound : ∀ parts ∈ declarators.map Declarator.written, SoundParts parts := by
    intro parts member
    obtain ⟨⟨span, name, initial⟩, found, rfl⟩ := List.mem_map.mp member
    obtain ⟨nameGrammatical, initialGrammatical⟩ := grammatical.2 _ found
    cases initial with
    | none => simpa [Declarator.written] using nameGrammatical.sound
    | some value =>
      have valueSound := Expr.soundParts_written value (initialGrammatical value rfl)
      simpa [Declarator.written] using ⟨nameGrammatical.sound, valueSound⟩
  simpa [allWritten] using soundParts_commaSeparated eachSound

theorem ForInitializer.soundParts_written {initializer : Option ForInitializer}
    (grammatical : ∀ first ∈ initializer, first.Grammatical) :
    SoundParts (ForInitializer.written initializer) := by
  match initializer with
  | none => simp [written]
  | some (.declaration declarators) =>
    exact Declarator.soundParts_allWritten (grammatical _ rfl)
  | some (.expression value) =>
    simpa [written] using Expr.soundParts_written value (grammatical _ rfl)

namespace Stmt

mutual

theorem soundParts_written (statement : Stmt) (grammatical : statement.Grammatical) :
    SoundParts statement.written := by
  cases statement with
  | declaration span declarators => exact Declarator.soundParts_allWritten grammatical
  | expression span value => simpa [written] using Expr.soundParts_written value grammatical
  | block span statements => simpa [written] using soundParts_allWritten statements grammatical
  | ifThen span condition positive =>
    obtain ⟨conditionGrammatical, positiveGrammatical, -⟩ := grammatical
    simpa [written] using ⟨Expr.soundParts_conditionWritten conditionGrammatical,
      soundParts_written positive positiveGrammatical⟩
  | ifElse span condition positive negative =>
    obtain ⟨conditionGrammatical, ⟨positiveGrammatical, -⟩, negativeGrammatical, -⟩ := grammatical
    simpa [written] using ⟨Expr.soundParts_conditionWritten conditionGrammatical,
      soundParts_written positive positiveGrammatical,
      soundParts_written negative negativeGrammatical⟩
  | whileLoop span condition body =>
    obtain ⟨conditionGrammatical, bodyGrammatical, -⟩ := grammatical
    simpa [written] using ⟨Expr.soundParts_conditionWritten conditionGrammatical,
      soundParts_written body bodyGrammatical⟩
  | doWhile span body condition =>
    obtain ⟨⟨bodyGrammatical, -⟩, conditionGrammatical⟩ := grammatical
    simpa [written] using ⟨soundParts_written body bodyGrammatical,
      Expr.soundParts_conditionWritten conditionGrammatical⟩
  | forLoop span initializer test after body =>
    obtain ⟨initial, testGrammatical, afterGrammatical, bodyGrammatical, -⟩ := grammatical
    simpa [written] using ⟨ForInitializer.soundParts_written initial,
      Expr.soundParts_optionWritten testGrammatical,
      Expr.soundParts_optionWritten afterGrammatical, soundParts_written body bodyGrammatical⟩
  | breakLoop span | continueLoop span => simp [written]
  | returnValue span value => simpa [written] using Expr.soundParts_optionWritten grammatical
  | empty span => simp [written]

theorem soundParts_allWritten (statements : List Stmt)
    (grammatical : AllGrammatical statements) : SoundParts (allWritten statements) := by
  cases statements with
  | nil => exact soundParts_nil
  | cons first others =>
    simpa [allWritten] using
      ⟨soundParts_written first grammatical.1, soundParts_allWritten others grammatical.2⟩

end

end Stmt

theorem Parameter.soundParts_allWritten {parameters : List Parameter}
    (grammatical : ∀ parameter ∈ parameters, parameter.name.Grammatical) :
    SoundParts (Parameter.allWritten parameters) := by
  have eachSound : ∀ parts ∈ parameters.map Parameter.written, SoundParts parts := by
    intro parts member
    obtain ⟨parameter, found, rfl⟩ := List.mem_map.mp member
    simpa [Parameter.written] using (grammatical parameter found).sound
  cases parameters with
  | nil => simp [allWritten]
  | cons first others => simpa [allWritten] using soundParts_commaSeparated eachSound

theorem FunctionDef.Grammatical.soundParts_written {function : FunctionDef}
    (grammatical : function.Grammatical) : SoundParts function.written := by
  simpa [FunctionDef.written] using ⟨grammatical.name.sound,
    Parameter.soundParts_allWritten grammatical.parameters,
    Stmt.soundParts_allWritten _ grammatical.body⟩

/-- All tokens of a grammatical program are sound. -/
theorem Program.Grammatical.sound {program : Program} (grammatical : program.Grammatical) :
    ∀ lexeme ∈ lexemesOf program.written, lexeme.Sound := by
  intro lexeme member
  obtain ⟨part, inProgram, inPart⟩ := List.mem_flatMap.mp member
  obtain ⟨function, inFunctions, inFunction⟩ := List.mem_flatMap.mp inProgram
  exact (grammatical function inFunctions).soundParts_written part inFunction lexeme inPart

end SmallC
