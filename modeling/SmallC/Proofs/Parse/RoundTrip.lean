import SmallC.Proofs.Parse.Complete

/-!
# Writing a program and reading it back

Statements and functions are read back from their tokens as expressions are.  An `if` without an
`else` is read back where no `else` follows, and the other statements where none follows that would
be taken by their end.  So the text of a grammatical program, its tokens with a space between any
two, gives the program back up to spans.
-/

namespace SmallC.Parse

variable {items rest : List LexItem} {inner : Stmt} {test : Expr}

/-! ## Parts of statements -/

theorem optionalBefore_readsBack {expected : Expected} {punctuator : Punctuator}
    {value : Option Expr} (grammatical : ∀ present ∈ value, present.Grammatical)
    (ends : EndsExpr (.punctuator punctuator))
    (noStart : startsExpr (.punctuator punctuator) = false)
    (spelled : Spells (Expr.optionWritten value ++ [Written.mark punctuator]) items rest) :
    Reading NoFailure (GivesBack (fun read => read.1.map Expr.erased) (value.map Expr.erased) rest)
      ((Part.optionalBefore expected punctuator).read items) := by
  rw [Part.read, Part.step, Step.optionalBefore]
  cases value with
  | none =>
    obtain ⟨place, rfl⟩ := spells_last.mp spelled
    simp only [next, ok_bind, Lexeme.kind_mark, if_true]
    exact ⟨rfl, rfl⟩
  | some present =>
    simp only [Expr.optionWritten, spells_append, spells_plain, spells_nil] at spelled
    obtain ⟨_, presentSpelled, place, after, rfl, rfl⟩ := spelled
    obtain ⟨token, afterToken, rfl, starts⟩ := exists_start present presentSpelled
    have different : token.kind ≠ .punctuator punctuator := by
      intro kind_eq
      rw [kind_eq, noStart] at starts
      cases starts
    have back := readBack_of_grammatical present (grammatical present rfl)
    simp only [next, ok_bind, if_neg different]
    refine (back.expr _ _ presentSpelled ends).bind ?_
    rintro read _ shortRead ⟨same, rfl⟩
    dsimp only
    rw [expect_mark]
    exact ⟨congrArg some same, rfl⟩

/-- The kinds of tokens that do not go on with a declaration. -/
structure EndsDeclaration (kind : TokenKind) : Prop extends EndsExpr kind where
  noComma : kind ≠ .punctuator .comma

theorem endsDeclaration_semicolon : EndsDeclaration (.punctuator .semicolon) :=
  ⟨endsExpr_semicolon, nofun⟩

theorem erased_declarator (name : Ident) (initial : Option Expr) :
    (declarator name initial).erased = ⟨.point 0, name.erased, initial.map Expr.erased⟩ := by
  cases initial <;> rfl

/-- A declared variable starts with its name, and its initial value is read back after it. -/
theorem exists_initializer_readsBack {given : Declarator}
    (grammatical : ∀ value ∈ given.initializer, value.Grammatical)
    (spelled : Spells given.written items rest) (halts : Halts EndsExpr rest) :
    ∃ place after, items = .ok (given.name.lexeme.token place) :: after ∧
      Reading NoFailure
        (GivesBack (Option.map Expr.erased) (given.initializer.map Expr.erased) rest)
        (Part.initializer.read after) := by
  obtain ⟨span, name, initial⟩ := given
  cases initial with
  | none =>
    simp only [Declarator.written, spells_plain, spells_nil] at spelled
    obtain ⟨place, after, rfl, rfl⟩ := spelled
    have noEqual : Halts (· ≠ .punctuator .equal) after :=
      halts.mono fun _ ends => ends.noAssignment none
    refine ⟨place, after, rfl, ?_⟩
    rw [Part.read, Part.step, Step.initializer, eat?_eq_none noEqual]
    exact ⟨rfl, rfl⟩
  | some value =>
    simp only [Declarator.written, spells_plain] at spelled
    obtain ⟨place, _, rfl, equalPlace, afterEqual, rfl, valueSpelled⟩ := spelled
    have back := readBack_of_grammatical value (grammatical value rfl)
    refine ⟨place, _, rfl, ?_⟩
    rw [Part.read, Part.step, Step.initializer, eat?_mark]
    refine (back.expr afterEqual rest valueSpelled halts).bind ?_
    rintro read _ shortRead ⟨same, rfl⟩
    exact ⟨congrArg some same, rfl⟩

theorem declarators_readsBack {declared : List Declarator}
    (grammatical : Declarator.AllGrammatical declared) {items : List LexItem}
    (spelled : Spells (commaSeparated (declared.map Declarator.written)) items rest)
    (halts : Halts EndsDeclaration rest) :
    Reading NoFailure
      (GivesBack (List.map Declarator.erased) (declared.map Declarator.erased) rest)
      (Part.declarators.read items) := by
  obtain ⟨nonempty, grammatical⟩ := grammatical
  induction declared generalizing items with
  | nil => contradiction
  | cons first others ih =>
    rw [List.forall_mem_cons] at grammatical
    obtain ⟨firstGrammatical, othersGrammatical⟩ := grammatical
    cases others with
    | nil =>
      rw [List.map_singleton, commaSeparated_singleton] at spelled
      obtain ⟨place, after, rfl, reading⟩ := exists_initializer_readsBack firstGrammatical.2
        spelled (halts.mono fun _ ends => ends.toEndsExpr)
      rw [Part.read, Part.step, Step.declarators, identifier_eq_ok, ok_bind]
      refine reading.bind ?_
      rintro initial _ shortInitial ⟨same, rfl⟩
      dsimp only
      rw [eat?_eq_none (halts.mono fun _ ends => ends.noComma)]
      refine ⟨?_, rfl⟩
      rw [List.map_singleton, erased_declarator, same]
      rfl
    | cons second more =>
      rw [List.map_cons, commaSeparated_cons (by simp), spells_append] at spelled
      obtain ⟨_, firstSpelled, spelled⟩ := spelled
      obtain ⟨commaPlace, afterComma, rfl, othersSpelled⟩ := spells_plain.mp spelled
      obtain ⟨place, after, rfl, reading⟩ :=
        exists_initializer_readsBack firstGrammatical.2 firstSpelled endsExpr_comma
      rw [Part.read, Part.step, Step.declarators, identifier_eq_ok, ok_bind]
      refine reading.bind ?_
      rintro initial _ shortInitial ⟨same, rfl⟩
      dsimp only
      rw [eat?_mark, ok_bind]
      refine (ih othersSpelled (List.cons_ne_nil _ _) othersGrammatical).bind ?_
      rintro readOthers _ shortOthers ⟨sameOthers, rfl⟩
      refine ⟨?_, rfl⟩
      rw [List.map_cons, erased_declarator, same, sameOthers]
      rfl

theorem condition_readsBack {value : Expr} (grammatical : value.Grammatical)
    (spelled : Spells value.conditionWritten items rest) :
    Reading NoFailure (GivesBack Expr.erased value.erased rest) (Part.condition.read items) := by
  simp only [Expr.conditionWritten, spells_plain, spells_append, spells_nil] at spelled
  obtain ⟨opening, afterOpen, rfl, _, valueSpelled, closing, after, rfl, rfl⟩ := spelled
  have back := readBack_of_grammatical value grammatical
  rw [Part.read, Part.step, Step.condition, expect_mark, ok_bind]
  refine (back.expr afterOpen _ valueSpelled endsExpr_closeParen).bind ?_
  rintro read _ shortRead ⟨same, rfl⟩
  dsimp only
  rw [expect_mark]
  exact ⟨same, rfl⟩

theorem forInitializer_readsBack {initial : Option ForInitializer}
    (grammatical : ∀ first ∈ initial, first.Grammatical)
    (spelled : Spells (ForInitializer.written initial) items rest) :
    Reading NoFailure
      (GivesBack (Option.map ForInitializer.erased) (initial.map ForInitializer.erased) rest)
      (Part.forInitializer.read items) := by
  rw [Part.read, Part.step, Step.forInitializer]
  match initial with
  | none =>
    simp only [ForInitializer.written, spells_plain, spells_nil] at spelled
    obtain ⟨place, after, rfl, rfl⟩ := spelled
    exact ⟨rfl, rfl⟩
  | some (.declaration declared) =>
    simp only [ForInitializer.written, Declarator.allWritten, spells_plain, spells_append,
      spells_nil] at spelled
    obtain ⟨wordPlace, afterWord, rfl, _, declaredSpelled, place, after, rfl, rfl⟩ := spelled
    simp only [next, ok_bind, Lexeme.kind_keyword]
    refine (declarators_readsBack (grammatical _ rfl) declaredSpelled
      endsDeclaration_semicolon).bind ?_
    rintro read _ shortRead ⟨same, rfl⟩
    dsimp only
    rw [expect_mark]
    exact ⟨congrArg (some ∘ ForInitializer.declaration) same, rfl⟩
  | some (.expression value) =>
    simp only [ForInitializer.written, spells_append, spells_plain, spells_nil] at spelled
    obtain ⟨_, valueSpelled, place, after, rfl, rfl⟩ := spelled
    obtain ⟨token, afterToken, rfl, starts⟩ := exists_start value valueSpelled
    have back := readBack_of_grammatical value (grammatical _ rfl)
    simp only [next, ok_bind]
    -- No expression starts as the two other forms do.
    split
    case h_1 kind_eq => rw [kind_eq] at starts; cases starts
    case h_2 kind_eq => rw [kind_eq] at starts; cases starts
    case h_3 =>
      refine (back.expr _ _ valueSpelled endsExpr_semicolon).bind ?_
      rintro read _ shortRead ⟨same, rfl⟩
      dsimp only
      rw [expect_mark]
      exact ⟨congrArg (some ∘ ForInitializer.expression) same, rfl⟩

/-- The header of a `for` statement without spans. -/
def ForHeader.erased (header : ForHeader) : ForHeader :=
  ⟨header.initializer.map ForInitializer.erased, header.test.map Expr.erased,
    header.after.map Expr.erased⟩

theorem forHeader_readsBack {header : ForHeader} (grammatical : header.Grammatical)
    (spelled : Spells header.written items rest) :
    Reading NoFailure (GivesBack ForHeader.erased header.erased rest)
      (Part.forHeader.read items) := by
  rw [ForHeader.written, spells_plain] at spelled
  obtain ⟨opening, afterOpen, rfl, spelled⟩ := spelled
  obtain ⟨_, initialSpelled, spelled⟩ := spells_append.mp spelled
  obtain ⟨_, testSpelled, afterSpelled⟩ := spells_append.mp spelled
  rw [Part.read, Part.step, Step.forHeader, expect_mark, ok_bind]
  refine (forInitializer_readsBack grammatical.initializer initialSpelled).bind ?_
  rintro initial _ shortInitial ⟨sameInitial, rfl⟩
  refine (optionalBefore_readsBack grammatical.test endsExpr_semicolon rfl testSpelled).bind ?_
  rintro ⟨test, testEnd⟩ _ shortTest ⟨sameTest, rfl⟩
  refine (optionalBefore_readsBack grammatical.after endsExpr_closeParen rfl afterSpelled).bind ?_
  rintro ⟨after, afterEnd⟩ _ shortAfter ⟨sameAfter, rfl⟩
  refine ⟨?_, rfl⟩
  dsimp only at sameTest sameAfter
  rw [ForHeader.erased, ForHeader.erased, sameInitial, sameTest, sameAfter]

/-! ## Statements -/

/-- The kinds of tokens that a statement would not take after its end. -/
def EndsStmt (given : Stmt) (kind : TokenKind) : Prop :=
  given.endsOpen = true → kind ≠ .keyword .elseWord

theorem halts_endsStmt (noElse : Halts (· ≠ .keyword .elseWord) rest) (given : Stmt) :
    Halts (EndsStmt given) rest :=
  noElse.mono fun _ different _ => different

/-- The tokens of a statement are read as a statement. -/
def ReadAsStmt (given : Stmt) : Prop :=
  ∀ items rest, Spells given.written items rest → Halts (EndsStmt given) rest →
    Reading NoFailure (GivesBack Stmt.erased given.erased rest) (Part.statement.read items)

/-- The tokens of a statement are read as the body of a control statement. -/
def ReadAsBody (given : Stmt) : Prop :=
  ∀ items rest, Spells given.written items rest → Halts (EndsStmt given) rest →
    Reading NoFailure (GivesBack Stmt.erased given.erased rest) (Part.body.read items)

theorem isDeclaration_erased (given : Stmt) : given.erased.isDeclaration = given.isDeclaration := by
  cases given <;> simp [Stmt.erased, Stmt.isDeclaration]

theorem controlled_eq_ok_iff {checked : Stmt} :
    controlled inner = .ok checked ↔ checked = inner ∧ inner.isDeclaration = false := by
  cases inner <;> simp [controlled, Stmt.isDeclaration, eq_comm]

theorem ReadAsStmt.asBody {given : Stmt} (reads : ReadAsStmt given)
    (single : given.isDeclaration = false) : ReadAsBody given := by
  intro items rest spelled halts
  rw [Part.read, Part.step, Step.body]
  refine (reads items rest spelled halts).bind ?_
  rintro read _ shortRead ⟨same, rfl⟩
  have readSingle : read.isDeclaration = false := by
    rw [← isDeclaration_erased, same, isDeclaration_erased, single]
  dsimp only
  rw [controlled_eq_ok_iff.mpr ⟨rfl, readSingle⟩]
  exact ⟨same, rfl⟩

/-! ### Simple statements -/

section

variable (span : Span)
include span

theorem readAsStmt_declaration {declared : List Declarator}
    (grammatical : Declarator.AllGrammatical declared) :
    ReadAsStmt (.declaration span declared) := by
  intro items rest spelled _
  simp only [Stmt.written, Declarator.allWritten, spells_plain, spells_append,
    spells_nil] at spelled
  obtain ⟨wordPlace, afterWord, rfl, _, declaredSpelled, place, after, rfl, rfl⟩ := spelled
  rw [Part.read, Part.step, Step.statement]
  simp only [next, ok_bind, Lexeme.kind_keyword]
  refine (declarators_readsBack grammatical declaredSpelled endsDeclaration_semicolon).bind ?_
  rintro read _ shortRead ⟨same, rfl⟩
  dsimp only
  rw [expect_mark]
  refine ⟨?_, rfl⟩
  rw [Stmt.erased, Stmt.erased, same]

theorem readAsStmt_expression {value : Expr} (grammatical : value.Grammatical) :
    ReadAsStmt (.expression span value) := by
  intro items rest spelled _
  simp only [Stmt.written, spells_append, spells_plain, spells_nil] at spelled
  obtain ⟨_, valueSpelled, place, after, rfl, rfl⟩ := spelled
  obtain ⟨token, afterToken, rfl, starts⟩ := exists_start value valueSpelled
  have back := readBack_of_grammatical value grammatical
  rw [Part.read, Part.step, Step.statement]
  simp only [next, ok_bind]
  -- No expression starts with the first token of another form.
  split <;> try (rename_i kind_eq; rw [kind_eq] at starts; cases starts)
  refine (back.expr _ _ valueSpelled endsExpr_semicolon).bind ?_
  rintro read _ shortRead ⟨same, rfl⟩
  dsimp only
  rw [expect_mark]
  refine ⟨?_, rfl⟩
  rw [Stmt.erased, Stmt.erased, same]

theorem readAsStmt_breakLoop : ReadAsStmt (.breakLoop span) := by
  intro items rest spelled _
  simp only [Stmt.written, spells_plain, spells_nil] at spelled
  obtain ⟨wordPlace, _, rfl, place, after, rfl, rfl⟩ := spelled
  rw [Part.read, Part.step, Step.statement]
  simp only [next, ok_bind, Lexeme.kind_keyword, expect_mark]
  exact ⟨rfl, rfl⟩

theorem readAsStmt_continueLoop : ReadAsStmt (.continueLoop span) := by
  intro items rest spelled _
  simp only [Stmt.written, spells_plain, spells_nil] at spelled
  obtain ⟨wordPlace, _, rfl, place, after, rfl, rfl⟩ := spelled
  rw [Part.read, Part.step, Step.statement]
  simp only [next, ok_bind, Lexeme.kind_keyword, expect_mark]
  exact ⟨rfl, rfl⟩

theorem readAsStmt_returnValue {value : Option Expr}
    (grammatical : ∀ result ∈ value, result.Grammatical) :
    ReadAsStmt (.returnValue span value) := by
  intro items rest spelled _
  simp only [Stmt.written, spells_plain] at spelled
  obtain ⟨wordPlace, afterWord, rfl, valueSpelled⟩ := spelled
  rw [Part.read, Part.step, Step.statement]
  simp only [next, ok_bind, Lexeme.kind_keyword]
  refine (optionalBefore_readsBack grammatical endsExpr_semicolon rfl valueSpelled).bind ?_
  rintro ⟨read, last⟩ _ shortRead ⟨same, rfl⟩
  refine ⟨?_, rfl⟩
  dsimp only at same
  rw [Stmt.erased, Stmt.erased, same]

theorem readAsStmt_empty : ReadAsStmt (.empty span) := by
  intro items rest spelled _
  simp only [Stmt.written, spells_plain, spells_nil] at spelled
  obtain ⟨place, after, rfl, rfl⟩ := spelled
  rw [Part.read, Part.step, Step.statement]
  exact ⟨rfl, rfl⟩

end

/-! ### Control statements -/

theorem readAsStmt_ifThen {positive : Stmt} (span : Span) (grammatical : test.Grammatical)
    (reads : ReadAsBody positive) :
    ReadAsStmt (.ifThen span test positive) := by
  intro items rest spelled halts
  simp only [Stmt.written, spells_plain, spells_append] at spelled
  obtain ⟨wordPlace, afterWord, rfl, _, testSpelled, positiveSpelled⟩ := spelled
  have noElse : Halts (· ≠ .keyword .elseWord) rest := halts.mono fun _ ends => ends rfl
  rw [Part.read, Part.step, Step.statement]
  simp only [next, ok_bind, Lexeme.kind_keyword]
  refine (condition_readsBack grammatical testSpelled).bind ?_
  rintro readTest _ shortTest ⟨sameTest, rfl⟩
  refine (reads _ rest positiveSpelled (halts_endsStmt noElse positive)).bind ?_
  rintro readPositive _ shortPositive ⟨samePositive, rfl⟩
  dsimp only
  rw [eat?_eq_none noElse]
  refine ⟨?_, rfl⟩
  rw [Stmt.erased, Stmt.erased, sameTest, samePositive]

/-- The `else` is left for this `if` since the positive branch would not take it. -/
theorem readAsStmt_ifElse {positive negative : Stmt} (span : Span) (grammatical : test.Grammatical)
    (positiveReads : ReadAsBody positive) (closed : positive.endsOpen = false)
    (negativeReads : ReadAsBody negative) :
    ReadAsStmt (.ifElse span test positive negative) := by
  intro items rest spelled halts
  simp only [Stmt.written, spells_plain, spells_append] at spelled
  obtain ⟨wordPlace, afterWord, rfl, _, ⟨_, testSpelled, positiveSpelled⟩, elsePlace, afterElse,
    rfl, negativeSpelled⟩ := spelled
  have positiveHalts : Halts (EndsStmt positive)
      (.ok ((Lexeme.keyword .elseWord).token elsePlace) :: afterElse) :=
    fun isOpen => absurd isOpen (by simp [closed])
  rw [Part.read, Part.step, Step.statement]
  simp only [next, ok_bind, Lexeme.kind_keyword]
  refine (condition_readsBack grammatical testSpelled).bind ?_
  rintro readTest _ shortTest ⟨sameTest, rfl⟩
  refine (positiveReads _ _ positiveSpelled positiveHalts).bind ?_
  rintro readPositive _ shortPositive ⟨samePositive, rfl⟩
  dsimp only
  rw [eat?_keyword, ok_bind]
  refine (negativeReads afterElse rest negativeSpelled halts).bind ?_
  rintro readNegative _ shortNegative ⟨sameNegative, rfl⟩
  refine ⟨?_, rfl⟩
  rw [Stmt.erased, Stmt.erased, sameTest, samePositive, sameNegative]

theorem readAsStmt_whileLoop (span : Span) (grammatical : test.Grammatical)
    (reads : ReadAsBody inner) :
    ReadAsStmt (.whileLoop span test inner) := by
  intro items rest spelled halts
  simp only [Stmt.written, spells_plain, spells_append] at spelled
  obtain ⟨wordPlace, afterWord, rfl, _, testSpelled, innerSpelled⟩ := spelled
  rw [Part.read, Part.step, Step.statement]
  simp only [next, ok_bind, Lexeme.kind_keyword]
  refine (condition_readsBack grammatical testSpelled).bind ?_
  rintro readTest _ shortTest ⟨sameTest, rfl⟩
  refine (reads _ rest innerSpelled halts).bind ?_
  rintro readInner _ shortInner ⟨sameInner, rfl⟩
  refine ⟨?_, rfl⟩
  rw [Stmt.erased, Stmt.erased, sameTest, sameInner]

theorem readAsStmt_doWhile (span : Span) (reads : ReadAsBody inner) (grammatical : test.Grammatical) :
    ReadAsStmt (.doWhile span inner test) := by
  intro items rest spelled _
  simp only [Stmt.written, spells_plain, spells_append, spells_nil] at spelled
  obtain ⟨wordPlace, afterWord, rfl, _, innerSpelled, whilePlace, afterWhile, rfl, _, testSpelled,
    place, after, rfl, rfl⟩ := spelled
  have noElse : Halts (· ≠ .keyword .elseWord)
      (.ok ((Lexeme.keyword .whileWord).token whilePlace) :: afterWhile) :=
    halts_keyword (by decide) whilePlace afterWhile
  rw [Part.read, Part.step, Step.statement]
  simp only [next, ok_bind, Lexeme.kind_keyword]
  refine (reads _ _ innerSpelled (halts_endsStmt noElse inner)).bind ?_
  rintro readInner _ shortInner ⟨sameInner, rfl⟩
  dsimp only
  rw [expect_keyword, ok_bind]
  refine (condition_readsBack grammatical testSpelled).bind ?_
  rintro readTest _ shortTest ⟨sameTest, rfl⟩
  dsimp only
  rw [expect_mark]
  refine ⟨?_, rfl⟩
  rw [Stmt.erased, Stmt.erased, sameInner, sameTest]

theorem readAsStmt_forLoop {header : ForHeader} (span : Span) (grammatical : header.Grammatical)
    (reads : ReadAsBody inner) :
    ReadAsStmt (.forLoop span header.initializer header.test header.after inner) := by
  intro items rest spelled halts
  rw [written_forLoop, spells_plain] at spelled
  obtain ⟨wordPlace, afterWord, rfl, spelled⟩ := spelled
  obtain ⟨_, headerSpelled, innerSpelled⟩ := spells_append.mp spelled
  rw [Part.read, Part.step, Step.statement]
  simp only [next, ok_bind, Lexeme.kind_keyword]
  refine (forHeader_readsBack grammatical headerSpelled).bind ?_
  rintro readHeader _ shortHeader ⟨sameHeader, rfl⟩
  refine (reads _ rest innerSpelled halts).bind ?_
  rintro readInner _ shortInner ⟨sameInner, rfl⟩
  obtain ⟨sameInitial, sameTest, sameAfter⟩ := ForHeader.mk.inj sameHeader
  refine ⟨?_, rfl⟩
  rw [Stmt.erased, Stmt.erased, sameInitial, sameTest, sameAfter, sameInner]

/-! ### Lists of statements -/

/-- A statement starts with no closing brace and no `else`. -/
theorem exists_stmt_start (given : Stmt) (spelled : Spells given.written items rest) :
    ∃ token after, items = .ok token :: after ∧ token.kind ≠ .punctuator .closeBrace ∧
      token.kind ≠ .keyword .elseWord := by
  cases given with
  | expression span value =>
    obtain ⟨middle, valueSpelled, -⟩ := spells_append.mp spelled
    obtain ⟨token, after, rfl, starts⟩ := exists_start value valueSpelled
    refine ⟨token, after, rfl, ?brace, ?word⟩
    case brace => intro kind_eq; rw [kind_eq] at starts; cases starts
    case word => intro kind_eq; rw [kind_eq] at starts; cases starts
  | _ =>
    obtain ⟨place, after, rfl, -⟩ := spells_plain.mp spelled
    exact ⟨_, after, rfl, nofun, nofun⟩

/-- The tokens of all statements of a list are read. -/
def AllReadAsStmt : List Stmt → Prop
  | [] => True
  | first :: others => ReadAsStmt first ∧ AllReadAsStmt others

/-- No `else` stands where a list of statements goes on. -/
theorem halts_of_spelled_statements {given : List Stmt}
    (spelled : Spells (Stmt.allWritten given ++ [Written.mark .closeBrace]) items rest) :
    Halts (· ≠ .keyword .elseWord) items := by
  cases given with
  | nil =>
    obtain ⟨place, after, rfl, -⟩ := spells_plain.mp spelled
    exact halts_mark (by decide) place after
  | cons first others =>
    rw [Stmt.allWritten, List.append_assoc] at spelled
    obtain ⟨middle, firstSpelled, -⟩ := spells_append.mp spelled
    obtain ⟨token, after, rfl, -, noElse⟩ := exists_stmt_start first firstSpelled
    exact noElse

theorem statements_readsBack {given : List Stmt} (reads : AllReadAsStmt given)
    {items : List LexItem}
    (spelled : Spells (Stmt.allWritten given ++ [Written.mark .closeBrace]) items rest) :
    Reading NoFailure
      (GivesBack (fun read => Stmt.allErased read.1) (Stmt.allErased given) rest)
      (Part.statements.read items) := by
  induction given generalizing items with
  | nil =>
    obtain ⟨place, rfl⟩ := spells_last.mp spelled
    rw [Part.read, Part.step, Step.statements]
    simp only [next, ok_bind, Lexeme.kind_mark, if_true]
    exact ⟨rfl, rfl⟩
  | cons first others ih =>
    rw [Stmt.allWritten, List.append_assoc] at spelled
    obtain ⟨_, firstSpelled, othersSpelled⟩ := spells_append.mp spelled
    obtain ⟨token, after, rfl, noBrace, -⟩ := exists_stmt_start first firstSpelled
    have noElse := halts_of_spelled_statements othersSpelled
    rw [Part.read, Part.step, Step.statements]
    simp only [next, ok_bind, if_neg noBrace]
    refine (reads.1 _ _ firstSpelled (halts_endsStmt noElse first)).bind ?_
    rintro read _ shortRead ⟨same, rfl⟩
    refine (ih reads.2 othersSpelled).bind ?_
    rintro ⟨readOthers, close⟩ _ shortOthers ⟨sameOthers, rfl⟩
    exact ⟨List.cons_eq_cons.mpr ⟨same, sameOthers⟩, rfl⟩

theorem readAsStmt_block {inner : List Stmt} (span : Span) (reads : AllReadAsStmt inner) :
    ReadAsStmt (.block span inner) := by
  intro items rest spelled _
  simp only [Stmt.written, spells_plain] at spelled
  obtain ⟨opening, afterOpen, rfl, innerSpelled⟩ := spelled
  rw [Part.read, Part.step, Step.statement]
  simp only [next, ok_bind, Lexeme.kind_mark]
  refine (statements_readsBack reads innerSpelled).bind ?_
  rintro ⟨read, close⟩ _ shortRead ⟨same, rfl⟩
  refine ⟨?_, rfl⟩
  dsimp only at same
  rw [Stmt.erased, Stmt.erased, same]

/-! ### All statements -/

mutual

/-- The tokens of every grammatical statement are read back. -/
theorem readAsStmt_of_grammatical (given : Stmt) (grammatical : given.Grammatical) :
    ReadAsStmt given := by
  match given with
  | .declaration span declared => exact readAsStmt_declaration span grammatical
  | .expression span value => exact readAsStmt_expression span grammatical
  | .block span inner =>
    rw [Stmt.Grammatical] at grammatical
    exact readAsStmt_block span (allReadAsStmt_of_grammatical inner grammatical)
  | .ifThen span test positive =>
    rw [Stmt.Grammatical] at grammatical
    obtain ⟨testGrammatical, positiveGrammatical, single⟩ := grammatical
    exact readAsStmt_ifThen span testGrammatical
      ((readAsStmt_of_grammatical positive positiveGrammatical).asBody single)
  | .ifElse span test positive negative =>
    rw [Stmt.Grammatical] at grammatical
    obtain ⟨testGrammatical, ⟨positiveGrammatical, positiveSingle, closed⟩, negativeGrammatical,
      negativeSingle⟩ := grammatical
    exact readAsStmt_ifElse span testGrammatical
      ((readAsStmt_of_grammatical positive positiveGrammatical).asBody positiveSingle) closed
      ((readAsStmt_of_grammatical negative negativeGrammatical).asBody negativeSingle)
  | .whileLoop span test inner =>
    rw [Stmt.Grammatical] at grammatical
    obtain ⟨testGrammatical, innerGrammatical, single⟩ := grammatical
    exact readAsStmt_whileLoop span testGrammatical
      ((readAsStmt_of_grammatical inner innerGrammatical).asBody single)
  | .doWhile span inner test =>
    rw [Stmt.Grammatical] at grammatical
    obtain ⟨⟨innerGrammatical, single⟩, testGrammatical⟩ := grammatical
    exact readAsStmt_doWhile span
      ((readAsStmt_of_grammatical inner innerGrammatical).asBody single) testGrammatical
  | .forLoop span initial test after inner =>
    rw [Stmt.Grammatical] at grammatical
    obtain ⟨initialGrammatical, testGrammatical, afterGrammatical, innerGrammatical, single⟩ :=
      grammatical
    have headerGrammatical : ForHeader.Grammatical ⟨initial, test, after⟩ :=
      ⟨initialGrammatical, testGrammatical, afterGrammatical⟩
    exact readAsStmt_forLoop span headerGrammatical
      ((readAsStmt_of_grammatical inner innerGrammatical).asBody single)
  | .breakLoop span => exact readAsStmt_breakLoop span
  | .continueLoop span => exact readAsStmt_continueLoop span
  | .returnValue span value =>
    rw [Stmt.Grammatical] at grammatical
    exact readAsStmt_returnValue span grammatical
  | .empty span => exact readAsStmt_empty span

theorem allReadAsStmt_of_grammatical (given : List Stmt)
    (grammatical : Stmt.AllGrammatical given) : AllReadAsStmt given := by
  match given with
  | [] => trivial
  | first :: others =>
    exact ⟨readAsStmt_of_grammatical first grammatical.1,
      allReadAsStmt_of_grammatical others grammatical.2⟩

end

/-! ## Functions -/

theorem parameterList_readsBack {given : List Parameter} (nonempty : given ≠ [])
    {items : List LexItem}
    (spelled : Spells (commaSeparated (given.map Parameter.written) ++ [Written.mark .closeParen])
      items rest) :
    Reading NoFailure
      (GivesBack (List.map Parameter.erased) (given.map Parameter.erased) rest)
      (Part.parameterList.read items) := by
  induction given generalizing items with
  | nil => contradiction
  | cons first others ih =>
    cases others with
    | nil =>
      simp only [List.map_singleton, commaSeparated_singleton, Parameter.written,
        spells_append, spells_plain, spells_nil] at spelled
      obtain ⟨_, ⟨wordPlace, _, rfl, namePlace, _, rfl, rfl⟩, place, after, rfl, rfl⟩ := spelled
      have noComma : Halts (· ≠ .punctuator .comma)
          (.ok ((Lexeme.mark .closeParen).token place) :: after) :=
        halts_mark (by decide) place after
      rw [Part.read, Part.step, Step.parameterList]
      simp only [expect_keyword, identifier_eq_ok, eat?_eq_none noComma, expect_mark, ok_bind]
      exact ⟨rfl, rfl⟩
    | cons second more =>
      rw [List.map_cons, commaSeparated_cons (by simp), List.append_assoc,
        List.cons_append] at spelled
      simp only [Parameter.written, List.cons_append, List.nil_append, spells_plain] at spelled
      obtain ⟨wordPlace, _, rfl, namePlace, _, rfl, place, after, rfl, othersSpelled⟩ := spelled
      rw [Part.read, Part.step, Step.parameterList]
      simp only [expect_keyword, identifier_eq_ok, eat?_mark, ok_bind]
      refine (ih (List.cons_ne_nil _ _) othersSpelled).bind ?_
      rintro readOthers _ shortOthers ⟨sameOthers, rfl⟩
      exact ⟨List.cons_eq_cons.mpr ⟨rfl, sameOthers⟩, rfl⟩

theorem parameters_readsBack {given : List Parameter}
    (spelled : Spells (Parameter.allWritten given) items rest) :
    Reading NoFailure
      (GivesBack (List.map Parameter.erased) (given.map Parameter.erased) rest)
      (Part.parameters.read items) := by
  rw [Part.read, Part.step, Step.parameters]
  cases given with
  | nil =>
    obtain ⟨_, rfl | rfl, spelt⟩ := spells_singleton.mp spelled
    · obtain ⟨opening, _, rfl, inside⟩ := spelt_cons.mp spelt
      obtain ⟨closing, after, rfl, rfl⟩ := spelt_cons.mp inside
      have noVoid : Halts (· ≠ .keyword .voidWord)
          (.ok ((Lexeme.mark .closeParen).token closing) :: after) :=
        halts_mark (by decide) closing after
      simp only [expect_mark, eat?_eq_none noVoid, eat?_mark, ok_bind]
      exact ⟨rfl, rfl⟩
    · obtain ⟨opening, _, rfl, inside⟩ := spelt_cons.mp spelt
      obtain ⟨word, _, rfl, ending⟩ := spelt_cons.mp inside
      obtain ⟨closing, after, rfl, rfl⟩ := spelt_cons.mp ending
      simp only [expect_mark, eat?_keyword, ok_bind]
      exact ⟨rfl, rfl⟩
  | cons first others =>
    obtain ⟨opening, afterOpen, rfl, listSpelled⟩ := spells_plain.mp spelled
    obtain ⟨_, firstSpelled⟩ := exists_spells_first listSpelled
    obtain ⟨wordPlace, afterWord, rfl, -⟩ := spells_plain.mp firstSpelled
    have noVoid : Halts (· ≠ .keyword .voidWord)
        (.ok ((Lexeme.keyword .intWord).token wordPlace) :: afterWord) :=
      halts_keyword (by decide) wordPlace afterWord
    have noClose : Halts (· ≠ .punctuator .closeParen)
        (.ok ((Lexeme.keyword .intWord).token wordPlace) :: afterWord) :=
      halts_keyword (by decide) wordPlace afterWord
    simp only [expect_mark, eat?_eq_none noVoid, eat?_eq_none noClose, ok_bind]
    refine (parameterList_readsBack (List.cons_ne_nil _ _) listSpelled).bind ?_
    rintro read _ shortRead ⟨same, rfl⟩
    exact ⟨same, rfl⟩

theorem returnType_eq_ok (type : TypeName) (span : Span) :
    returnType ((Lexeme.keyword type.keyword).token span) = .ok type := by
  cases type <;> rfl

theorem functionDef_readsBack {given : FunctionDef} (grammatical : given.Grammatical)
    (spelled : Spells given.written items rest) :
    Reading NoFailure (GivesBack FunctionDef.erased given.erased rest)
      (Part.functionDef.read items) := by
  simp only [FunctionDef.written, spells_plain] at spelled
  obtain ⟨typePlace, _, rfl, namePlace, afterName, rfl, spelled⟩ := spelled
  obtain ⟨_, parametersSpelled, spelled⟩ := spells_append.mp spelled
  obtain ⟨opening, afterOpen, rfl, bodySpelled⟩ := spells_plain.mp spelled
  have reads := allReadAsStmt_of_grammatical _ grammatical.body
  rw [Part.read, Part.step, Step.functionDef]
  simp only [next, ok_bind, returnType_eq_ok, identifier_eq_ok]
  refine (parameters_readsBack parametersSpelled).bind ?_
  rintro readParameters _ shortParameters ⟨sameParameters, rfl⟩
  dsimp only
  rw [Part.read, Part.step, Step.block, expect_mark, ok_bind, bind_assoc]
  refine (statements_readsBack reads bodySpelled).bind ?_
  rintro ⟨readBody, close⟩ _ shortBody ⟨sameBody, rfl⟩
  refine ⟨?_, rfl⟩
  dsimp only at sameBody
  rw [FunctionDef.erased, FunctionDef.erased, sameParameters, sameBody]
  rfl

theorem functionDefs_readsBack {given : List FunctionDef}
    (grammatical : ∀ function ∈ given, function.Grammatical) {items : List LexItem}
    (spelled : Spells (given.flatMap FunctionDef.written) items []) :
    Outcome NoFailure (fun read => read.map FunctionDef.erased = given.map FunctionDef.erased)
      (functionDefs items) := by
  suffices reading : Reading NoFailure
      (fun read _ => read.map FunctionDef.erased = given.map FunctionDef.erased)
      (Part.functionDefs.read items) from reading.bind fun _ _ _ same => same
  induction given generalizing items with
  | nil =>
    cases spells_nil.mp spelled
    rw [Part.read, Part.step, Step.functionDefs]
    rfl
  | cons first others ih =>
    rw [List.forall_mem_cons] at grammatical
    rw [List.flatMap_cons] at spelled
    obtain ⟨_, firstSpelled, othersSpelled⟩ := spells_append.mp spelled
    have reading := functionDef_readsBack grammatical.1 firstSpelled
    obtain ⟨place, after, rfl, -⟩ := spells_plain.mp firstSpelled
    rw [Part.read, Part.step, Step.functionDefs]
    refine reading.bind ?_
    rintro read _ shortRead ⟨same, rfl⟩
    refine (ih grammatical.2 othersSpelled).bind fun readOthers _ _ sameOthers => ?_
    exact List.cons_eq_cons.mpr ⟨same, sameOthers⟩

end SmallC.Parse

namespace SmallC

/-! ## Programs -/

/-- Every text that writes a grammatical program is read as the program, up to spans. -/
theorem Program.exists_parse_of_spells {program : Program} {text : List Char}
    (grammatical : program.Grammatical) (spells : Spells program.written (lexItems text) []) :
    ∃ read, parseProgram text = .ok read ∧ read.erased = program.erased := by
  have outcome := Parse.functionDefs_readsBack grammatical spells
  unfold parseProgram
  cases functions_eq : Parse.functionDefs (lexItems text) with
  | error failure =>
    rw [functions_eq] at outcome
    exact outcome.elim
  | ok functions =>
    rw [functions_eq] at outcome
    refine ⟨_, rfl, ?_⟩
    exact congrArg (Program.mk · 0) outcome

/-- The text of every grammatical program is read as the program, up to spans. -/
theorem spacedText_read_back {program : Program} (grammatical : program.Grammatical) :
    ∃ read, parseProgram program.spacedText = .ok read ∧ read.erased = program.erased :=
  Program.exists_parse_of_spells grammatical
    ⟨_, writes_lexemesOf program.written, spelt_spaced grammatical.sound⟩

/-- A function that assigns the least integer through two variables, with an `else` that belongs to
the inner of two `if`s. -/
def nestedChoices : Program :=
  let here := Span.point 0
  let x : Ident := ⟨"x", here⟩
  let y : Ident := ⟨"y", here⟩
  let least : Expr := .unary here .negate here (.literal ⟨.integer, "2147483648", here⟩)
  let difference : Expr :=
    .binary here (.arithmetic .subtract) here
      (.binary here (.arithmetic .subtract) here (.identifier x) (.identifier y))
      (.literal ⟨.character, "'a'", here⟩)
  let choice : Stmt :=
    .ifThen here (.identifier x)
      (.ifElse here (.identifier y)
        (.expression here (.assign here x none (.assign here y (some (.add, here)) least)))
        (.returnValue here (some difference)))
  ⟨[⟨here, .int, ⟨"f", here⟩, [⟨here, x⟩, ⟨here, y⟩], ⟨here, [choice]⟩⟩], 0⟩

theorem spacedText_read_back_nestedChoices :
    nestedChoices.spacedText =
        ("int f ( int x , int y ) \x7b if ( x ) if ( y ) x = y += - 2147483648 ; " ++
          "else return x - y - 'a' ; \x7d").toList ∧
      nestedChoices.Grammatical ∧
      ∃ read, parseProgram nestedChoices.spacedText = .ok read ∧
        read.erased = nestedChoices.erased := by
  have f : Ident.Grammatical ⟨"f", .point 0⟩ := ⟨by decide, by decide⟩
  have x : Ident.Grammatical ⟨"x", .point 0⟩ := ⟨by decide, by decide⟩
  have y : Ident.Grammatical ⟨"y", .point 0⟩ := ⟨by decide, by decide⟩
  have least : Literal.Grammatical UnaryOp.negate.largestOperand
      ⟨.integer, "2147483648", .point 0⟩ := ⟨by decide, by decide, by decide⟩
  have letter : Literal.Grammatical largestLiteral ⟨.character, "'a'", .point 0⟩ :=
    ⟨['a', '\''], by decide, by decide, by decide⟩
  have grammatical : nestedChoices.Grammatical := by
    refine List.forall_mem_singleton.mpr ⟨f, by simp [x, y], ?_⟩
    simp [Stmt.AllGrammatical, Stmt.Grammatical, Stmt.isDeclaration, Stmt.endsOpen,
      Expr.GrammaticalUpTo, Expr.level, BinaryOp.rank, x, y, least, letter]
  exact ⟨by decide +kernel, grammatical, spacedText_read_back grammatical⟩

end SmallC
