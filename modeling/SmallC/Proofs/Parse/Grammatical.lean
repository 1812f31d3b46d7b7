import SmallC.Proofs.Parse.Phrases

/-!
# Only the grammar is accepted

A reader that succeeds has taken exactly the tokens of what it gives, and what it gives is
grammatical and lies where its tokens are.  So the tokens of an accepted text are a way to write its
tree, and no text outside the grammar is accepted.
-/

namespace SmallC.Parse

open Text Node

variable {text : List Char} {low : Nat} {items rest : List LexItem} {token : Token}

/-! ## Literals and targets -/

theorem integerLiteral_reads {sign : Int64} {limit : Nat} (largest : LargestMagnitude sign limit)
    (taken : TakenToken text low items token rest) (kind_eq : token.kind = .integerLiteral) :
    Outcome (Misplaced text) (fun value => Reads text low Expr.node Expr.span Expr.written
      (fun value => value.level = 0 ∧ value.GrammaticalUpTo limit) items value rest)
      (integerLiteral sign token) := by
  obtain ⟨nonempty, digits⟩ := taken.sound.digits kind_eq
  unfold integerLiteral
  split
  · rename_i fits
    have within := (any_int64?_digits_iff nonempty digits largest).mp fits
    refine ⟨⟨taken.laidOut_around, rfl, taken.toTaken⟩, ?_, rfl, nonempty, digits, within⟩
    have spells := taken.spells
    rw [Token.lexeme, kind_eq] at spells
    exact spells
  · exact misplaced_located taken.lies _

theorem negatedLiteral?_reads (op : UnaryOp) (ahead : Ahead text low items) :
    Offering (Misplaced text) True
      (fun token rest => TakenKind text low .integerLiteral items token rest ∧ op = .negate)
      (negatedLiteral? op items) := by
  cases op with
  | logicalNot | bitwiseNot => trivial
  | negate =>
    refine (eat?_reads _ ahead).mono fun found holds => ?_
    cases found with
    | none => trivial
    | some parsed => exact ⟨holds, rfl⟩

/-- An expression that names a variable, looking through parentheses, is a way to write a target. -/
theorem target_of_ungrouped (value : Expr) {name : Ident} {lexemes : List Lexeme}
    (ungrouped_eq : value.ungrouped = .identifier name) (grammatical : value.Grammatical)
    (writes : Writes value.written lexemes) :
    name.Grammatical ∧ (Written.target name).Admits lexemes := by
  match value with
  | .identifier other =>
    cases ungrouped_eq
    exact ⟨grammatical, 0, writes_singleton.mp writes⟩
  | .group span inner =>
    obtain ⟨_, _, rfl, rfl, writes⟩ := writes
    obtain ⟨middle, _, rfl, innerWrites, closes⟩ := writes_append.mp writes
    cases writes_singleton.mp closes
    obtain ⟨nameGrammatical, depth, rfl⟩ :=
      target_of_ungrouped inner ungrouped_eq grammatical innerWrites
    refine ⟨nameGrammatical, depth + 1, ?_⟩
    rw [List.replicate_succ, List.replicate_succ']
    simp
  | .literal _ | .call _ _ _ | .binary _ _ _ _ _ | .unary _ _ _ _ | .step _ _ _ _
  | .assign _ _ _ _ => cases ungrouped_eq

/-- What stands in parentheses lies inside them. -/
theorem fill_ungrouped {value : Expr} (laidOut : value.node.LaidOut text) :
    Fill text value.span.start value.span.stop [value.ungrouped.node] := by
  fun_induction Expr.ungrouped value with
  | case1 span inner ih =>
    obtain ⟨-, -, after, innerLaidOut, before⟩ := laidOut
    rw [Expr.span_node] at after before
    exact (ih innerLaidOut).mono after before
  | case2 value _ =>
    rw [← Expr.span_node]
    exact ⟨le_rfl, laidOut, le_rfl⟩

/-! ## Expressions -/

/-- An operand whose operators have ranks below `rank` was read. -/
abbrev ReadsOperand (text : List Char) (low rank : Nat) :
    List LexItem → Expr → List LexItem → Prop :=
  Reads text low Expr.node Expr.span Expr.written fun value => value.level ≤ rank ∧ value.Grammatical

/-- An expression was read. -/
abbrev ReadsExpr (text : List Char) (low : Nat) : List LexItem → Expr → List LexItem → Prop :=
  Reads text low Expr.node Expr.span Expr.written Expr.Grammatical

/-- The arguments of a call were read with the closing parenthesis. -/
abbrev ReadsArguments (text : List Char) (low : Nat) (holds : List Expr → Prop) :
    List LexItem → List Expr × Token → List LexItem → Prop :=
  Closed text low Expr.nodes
    (fun given => commaSeparated (Expr.allWritten given) ++ [.mark .closeParen])
    fun given => Expr.AllGrammatical given ∧ holds given

theorem assignable_reads {rank : Nat} {left : Expr}
    (read : ReadsOperand text low rank items left rest) :
    Outcome (Misplaced text)
      (fun name => Fill text left.span.start left.span.stop [Ident.node name] ∧
        Spells [.target name] items rest ∧ name.Grammatical)
      (assignable left) := by
  unfold assignable
  split
  · rename_i name ungrouped_eq
    obtain ⟨lexemes, writes, spelt⟩ := read.spells
    obtain ⟨grammatical, admits⟩ := target_of_ungrouped left ungrouped_eq read.holds.2 writes
    have inside := fill_ungrouped read.laidOut
    rw [ungrouped_eq] at inside
    obtain ⟨after, ⟨-, -, fill⟩, before⟩ := inside
    exact ⟨fill.mono after before, ⟨lexemes, writes_singleton.mpr admits, spelt⟩, grammatical⟩
  · exact misplaced_located read.taken.lies _

theorem allWritten_ne_nil {values : List Expr} (nonempty : values ≠ []) :
    Expr.allWritten values ≠ [] := by
  cases values with
  | nil => contradiction
  | cons first others => exact List.cons_ne_nil _ _

mutual

theorem expression_reads {low : Nat} {items : List LexItem} (ahead : Ahead text low items) :
    Reading (Misplaced text) (ReadsExpr text low items) (Part.expression.read items) := by
  rw [Part.read, Part.step, Step.expression]
  refine (binary_reads ahead).bind fun left afterLeft shortLeft leftRead => ?_
  refine (operator_reads (fun _ _ _ => assignment?_eq_some_iff.mp) leftRead.taken.ahead).bind
    (fun _ => ?missing) ?present
  case missing => exact ⟨leftRead.toPhrase, leftRead.spells, leftRead.holds.2⟩
  case present =>
    rintro ⟨op, opSpan⟩ afterOp shortOp opRead
    refine (assignable_reads leftRead).bind fun target ⟨targetFill, targetSpells, named⟩ => ?_
    refine (expression_reads opRead.ahead).bind fun value afterValue shortValue valueRead => ?_
    have opFill : Fill text left.span.stop opSpan.stop
        ((op.map (·, opSpan)).toList.map fun entry => .leaf entry.2) := by
      cases op with
      | none => exact opRead.le
      | some op => exact ⟨opRead.after, laidOut_leaf opRead.delimited, le_rfl⟩
    have whole := leftRead.taken.spanning valueRead.taken (opRead.le.trans valueRead.taken.le)
      ((targetFill.append opFill).append valueRead.single)
    have spells := targetSpells.cons (opRead.spells.cons valueRead.spells)
    refine ⟨⟨whole.1, rfl, whole.2⟩, ?_, named, valueRead.holds⟩
    cases op with
    | none | some op => exact spells
  termination_by (items.length, BinaryOp.rankCount + 3)
  decreasing_by
    · exact Prod.Lex.right _ (by omega)
    · exact Prod.Lex.left _ _ (by omega)

theorem binary_reads {rank low : Nat} {items : List LexItem} (ahead : Ahead text low items) :
    Reading (Misplaced text) (ReadsOperand text low rank items) ((Part.binary rank).read items) := by
  match rank with
  | 0 =>
    rw [Part.read, Part.step, Step.binary]
    exact unary_reads ahead
  | rank + 1 =>
    rw [Part.read, Part.step, Step.binary]
    refine (binary_reads ahead).bind fun first afterFirst shortFirst firstRead => ?_
    have leftRead : ReadsOperand text low (rank + 1) items first afterFirst :=
      ⟨firstRead.toPhrase, firstRead.spells, firstRead.holds.1.trans (Nat.le_succ rank),
        firstRead.holds.2⟩
    refine (binaryTail_reads leftRead).bind fun joined afterAll _ joinedRead => ?_
    exact joinedRead
  termination_by (items.length, rank + 2)
  decreasing_by
    · exact Prod.Lex.right _ (by omega)
    · exact Prod.Lex.right _ (by omega)
    · exact Prod.Lex.left _ _ (by omega)

theorem binaryTail_reads {rank low : Nat} {left : Expr} {start items : List LexItem}
    (leftRead : ReadsOperand text low (rank + 1) start left items) :
    Reading (Misplaced text) (ReadsOperand text low (rank + 1) start)
      ((Part.binaryTail rank left).read items) := by
  have uses (token : Token) (op : BinaryOp) (span : Span)
      (used : binaryOfRank? rank token = some (op, span)) :
      token.kind = .punctuator op.mark ∧ token.span = span := by
    obtain ⟨kind_eq, -, span_eq⟩ := binaryOfRank?_eq_some_iff.mp used
    exact ⟨kind_eq, span_eq⟩
  rw [Part.read, Part.step, Step.binaryTail]
  refine (operator_reads uses leftRead.taken.ahead).bind (fun _ => ?missing) ?present
  case missing => exact leftRead
  case present =>
    rintro ⟨op, opSpan⟩ afterOp shortOp opRead
    obtain ⟨_, used⟩ := opRead.used
    obtain ⟨-, rank_eq, -⟩ := binaryOfRank?_eq_some_iff.mp used
    refine (binary_reads opRead.ahead).bind fun right afterRight shortRight rightRead => ?_
    have rightFill : Fill text left.span.stop right.span.stop [.leaf opSpan, right.node] :=
      ⟨opRead.after, laidOut_leaf opRead.delimited, rightRead.single⟩
    have whole := leftRead.starting rightRead.taken rightFill
    have joinedRead : ReadsOperand text low (rank + 1) start
        (.binary (left.span.through right.span) op opSpan left right) afterRight := by
      refine ⟨⟨whole.1, rfl, whole.2⟩, ?_, ?_, ?_, ?_⟩
      · exact leftRead.spells.append (opRead.spells.cons rightRead.spells)
      · exact Nat.succ_le_succ rank_eq.le
      · exact rank_eq ▸ leftRead.holds
      · exact rank_eq ▸ rightRead.holds
    refine (binaryTail_reads joinedRead).bind fun all afterAll _ allRead => ?_
    exact allRead
  termination_by (items.length, 0)
  decreasing_by all_goals exact Prod.Lex.left _ _ (by omega)

theorem unary_reads {low : Nat} {items : List LexItem} (ahead : Ahead text low items) :
    Reading (Misplaced text) (ReadsOperand text low 0 items) (Part.unary.read items) := by
  rw [Part.read, Part.step, Step.unary]
  refine (peek_reads _ ahead).bind fun _ _ => ?_
  refine (operator_reads (fun _ _ _ => unary?_eq_some_iff.mp) ahead).bind
    (fun _ => ?noOperator) ?operator
  case noOperator =>
    refine (operator_reads (fun _ _ _ => step?_eq_some_iff.mp) ahead).bind (fun _ => ?noStep) ?step
    case noStep => exact primary_reads ahead
    case step =>
      rintro ⟨op, opSpan⟩ afterOp shortOp opRead
      refine (identifier_reads opRead.ahead).bind fun target afterTarget _ targetRead => ?_
      have whole := opRead.enclosing targetRead.taken targetRead.single
      exact ⟨⟨whole.1, rfl, whole.2⟩, opRead.spells.cons targetRead.spells, Nat.le_refl 0,
        targetRead.holds⟩
  case operator =>
    rintro ⟨op, opSpan⟩ afterOp shortOp opRead
    -- The operator is the first part, whatever the operand is.
    have joined {operand : Expr} {rest : List LexItem}
        (operandRead : Phrase text opSpan.stop Expr.node Expr.span operand rest) :
        Phrase text low Expr.node Expr.span (.unary (opSpan.through operand.span) op opSpan operand)
          rest :=
      have fill : Fill text opSpan.start operand.span.stop [.leaf opSpan, operand.node] :=
        ⟨le_rfl, laidOut_leaf opRead.delimited, operandRead.single⟩
      have whole := opRead.spanning operandRead.taken operandRead.taken.le fill
      ⟨whole.1, rfl, whole.2⟩
    refine (negatedLiteral?_reads op opRead.ahead).bind (fun _ => ?noLiteral) ?literal
    case noLiteral =>
      refine (unary_reads opRead.ahead).bind fun operand afterOperand _ operandRead => ?_
      obtain ⟨tight, grammatical⟩ := operandRead.holds
      exact ⟨joined operandRead.toPhrase, opRead.spells.cons operandRead.spells, Nat.le_refl 0,
        Nat.le_zero.mp tight, grammatical.mono op.largestLiteral_le⟩
    case literal =>
      rintro token afterLiteral shortLiteral ⟨taken, rfl⟩
      refine (integerLiteral_reads .negative taken.toTakenToken taken.kind_eq).bind
        fun operand operandRead => ?_
      exact ⟨joined operandRead.toPhrase, opRead.spells.cons operandRead.spells, Nat.le_refl 0,
        operandRead.holds⟩
  termination_by (items.length, 1)
  decreasing_by
    · exact Prod.Lex.right _ (by omega)
    · exact Prod.Lex.left _ _ (by omega)

theorem primary_reads {low : Nat} {items : List LexItem} (ahead : Ahead text low items) :
    Reading (Misplaced text) (ReadsOperand text low 0 items) (Part.primary.read items) := by
  rw [Part.read, Part.step, Step.primary]
  refine (next_reads _ ahead).bind fun token afterToken shortToken taken => ?_
  dsimp only
  split
  · rename_i kind_eq
    have nameRead := ident_reads taken kind_eq
    refine (eat?_reads _ taken.ahead).bind (fun _ => ?noCall) ?called
    case noCall =>
      refine (operator_reads (fun _ _ _ => step?_eq_some_iff.mp) taken.ahead).bind
        (fun _ => ?noStep) ?step
      case noStep =>
        exact ⟨⟨taken.laidOut_around, rfl, taken.toTaken⟩, nameRead.spells, Nat.le_refl 0,
          nameRead.holds⟩
      case step =>
        rintro ⟨op, opSpan⟩ afterOp shortOp opRead
        have whole := nameRead.starting opRead.toTaken (Fill.nil opRead.le)
        exact ⟨⟨whole.1, rfl, whole.2⟩, nameRead.spells.cons opRead.spells, Nat.le_refl 0,
          nameRead.holds⟩
    case called =>
      intro _ afterOpen shortOpen opens
      refine (arguments_reads opens.ahead).bind ?_
      rintro ⟨given, close⟩ afterClose shortClose givenRead
      have whole := nameRead.starting givenRead.taken (opens.before givenRead.fill)
      exact ⟨⟨whole.1, rfl, whole.2⟩,
        nameRead.spells.cons ((opens.mark opens.kind_eq).cons givenRead.spells), Nat.le_refl 0,
        nameRead.holds, givenRead.holds.1⟩
  · rename_i kind_eq
    refine (integerLiteral_reads .positive taken kind_eq).bind fun value valueRead => ?_
    exact ⟨valueRead.toPhrase, valueRead.spells, valueRead.holds.1.le, valueRead.holds.2⟩
  · rename_i kind_eq
    have spells := taken.spells
    rw [Token.lexeme, kind_eq] at spells
    exact ⟨⟨taken.laidOut_around, rfl, taken.toTaken⟩, spells, Nat.le_refl 0,
      taken.sound.isCharLiteral kind_eq⟩
  · rename_i kind_eq
    refine (expression_reads taken.ahead).bind fun inner afterInner shortInner innerRead => ?_
    refine (expect_reads _ innerRead.taken.ahead).bind fun close afterClose _ closes => ?_
    have whole := taken.enclosing closes.toTaken (closes.extend innerRead.single)
    exact ⟨⟨whole.1, rfl, whole.2⟩,
      (taken.mark kind_eq).cons (innerRead.spells.append (closes.mark closes.kind_eq)),
      Nat.le_refl 0, innerRead.holds⟩
  · exact misplaced_located taken.lies _
  termination_by (items.length, 0)
  decreasing_by all_goals exact Prod.Lex.left _ _ (by omega)

theorem arguments_reads {low : Nat} {items : List LexItem} (ahead : Ahead text low items) :
    Reading (Misplaced text) (ReadsArguments text low (fun _ => True) items)
      (Part.arguments.read items) := by
  rw [Part.read, Part.step, Step.arguments]
  refine (eat?_reads _ ahead).bind (fun _ => ?given) ?empty
  case given =>
    exact (argumentList_reads ahead).mono fun parsed read =>
      ⟨read.fill, read.taken, read.spells, read.holds.1, trivial⟩
  case empty =>
    exact fun close afterClose shortClose closes =>
      ⟨closes.le, closes.toTaken, closes.mark closes.kind_eq, trivial, trivial⟩
  termination_by (items.length, BinaryOp.rankCount + 5)
  decreasing_by exact Prod.Lex.right _ (by omega)

theorem argumentList_reads {low : Nat} {items : List LexItem} (ahead : Ahead text low items) :
    Reading (Misplaced text) (ReadsArguments text low (· ≠ []) items)
      (Part.argumentList.read items) := by
  rw [Part.read, Part.step, Step.argumentList]
  refine (expression_reads ahead).bind fun first afterFirst shortFirst firstRead => ?_
  refine (eat?_reads _ firstRead.taken.ahead).bind (fun _ => ?last) ?comma
  case last =>
    refine (expect_reads _ firstRead.taken.ahead).bind fun close afterClose _ closes => ?_
    refine ⟨closes.extend firstRead.single, closes.mono firstRead.taken.le, ?_,
      ⟨firstRead.holds, trivial⟩, List.cons_ne_nil _ _⟩
    simp only [Expr.allWritten, commaSeparated_singleton]
    exact firstRead.spells.append (closes.mark closes.kind_eq)
  case comma =>
    intro _ afterComma shortComma comma
    refine (argumentList_reads comma.ahead).bind ?_
    rintro ⟨others, close⟩ afterClose shortClose othersRead
    refine ⟨firstRead.cons (comma.before othersRead.fill),
      othersRead.taken.mono (firstRead.taken.le.trans comma.le), ?_,
      ⟨firstRead.holds, othersRead.holds.1⟩, List.cons_ne_nil _ _⟩
    simp only [Expr.allWritten, commaSeparated_cons (allWritten_ne_nil othersRead.holds.2),
      List.append_assoc, List.cons_append]
    exact firstRead.spells.append ((comma.mark comma.kind_eq).cons othersRead.spells)
  termination_by (items.length, BinaryOp.rankCount + 4)
  decreasing_by
    · exact Prod.Lex.right _ (by omega)
    · exact Prod.Lex.left _ _ (by omega)

end

/-! ## Statements -/

theorem optionalBefore_reads {expected : Expected} {stop : Punctuator}
    (ahead : Ahead text low items) :
    Reading (Misplaced text)
      (Closed text low (fun read => read.toList.map Expr.node)
        (fun read => Expr.optionWritten read ++ [.mark stop])
        (fun read => ∀ value ∈ read, value.Grammatical) items)
      ((Part.optionalBefore expected stop).read items) := by
  rw [Part.read, Part.step, Step.optionalBefore]
  refine (next_reads _ ahead).bind fun token afterToken shortToken taken => ?_
  dsimp only
  split
  · rename_i kind_eq
    exact ⟨taken.le, taken.toTaken, taken.mark kind_eq, fun value present =>
      (Option.not_mem_none value present).elim⟩
  · refine (expression_reads ahead).bind fun value afterValue shortValue valueRead => ?_
    refine (expect_reads _ valueRead.taken.ahead).bind fun last afterLast _ lastTaken => ?_
    refine ⟨lastTaken.extend valueRead.single, lastTaken.mono valueRead.taken.le,
      valueRead.spells.append (lastTaken.mark lastTaken.kind_eq), ?_⟩
    rintro _ ⟨⟩
    exact valueRead.holds

theorem initializer_reads {start : List LexItem} {name : Ident}
    (nameRead : ReadsIdent text low start name items) :
    Reading (Misplaced text)
      (fun initial => Reads text low Declarator.node Declarator.span Declarator.written
        (fun declared => declared.name.Grammatical ∧
          ∀ value ∈ declared.initializer, value.Grammatical) start (declarator name initial))
      (Part.initializer.read items) := by
  rw [Part.read, Part.step, Step.initializer]
  refine (eat?_reads _ nameRead.taken.ahead).bind (fun _ => ?missing) ?present
  case missing =>
    exact ⟨⟨⟨nameRead.taken.delimited, nofun, nameRead.from_start.single⟩, rfl, nameRead.taken⟩,
      nameRead.spells, nameRead.holds, nofun⟩
  case present =>
    intro _ afterEqual shortEqual equal
    refine (expression_reads equal.ahead).bind fun value afterValue _ valueRead => ?_
    have whole := nameRead.starting valueRead.taken (equal.before valueRead.single)
    refine ⟨⟨whole.1, rfl, whole.2⟩,
      nameRead.spells.cons ((equal.mark equal.kind_eq).cons valueRead.spells), nameRead.holds, ?_⟩
    rintro _ ⟨⟩
    exact valueRead.holds

theorem declarators_reads {low : Nat} {items : List LexItem} (ahead : Ahead text low items) :
    Reading (Misplaced text)
      (Parts text low (List.map Declarator.node)
        (fun declared => commaSeparated (declared.map Declarator.written))
        Declarator.AllGrammatical items)
      (Part.declarators.read items) := by
  rw [Part.read, Part.step, Step.declarators]
  refine (identifier_reads ahead).bind fun name afterName shortName nameRead => ?_
  refine (initializer_reads nameRead).bind fun initial afterInitial _ read => ?_
  refine (eat?_reads _ read.taken.ahead).bind (fun _ => ?last) ?comma
  case last =>
    refine ⟨⟨_, read.single, read.taken.ahead⟩, ?_, List.cons_ne_nil _ _,
      List.forall_mem_singleton.mpr read.holds⟩
    rw [List.map_singleton, commaSeparated_singleton]
    exact read.spells
  case comma =>
    intro _ afterComma shortComma comma
    refine (declarators_reads comma.ahead).bind fun others afterOthers _ othersRead => ?_
    obtain ⟨high, fill, othersAhead⟩ := othersRead.fill
    obtain ⟨nonempty, othersGrammatical⟩ := othersRead.holds
    refine ⟨⟨high, read.cons (comma.before fill), othersAhead⟩, ?_, List.cons_ne_nil _ _,
      List.forall_mem_cons.mpr ⟨read.holds, othersGrammatical⟩⟩
    rw [List.map_cons, commaSeparated_cons (List.map_eq_nil_iff.not.mpr nonempty)]
    exact read.spells.append ((comma.mark comma.kind_eq).cons othersRead.spells)
  termination_by items.length

theorem condition_reads (ahead : Ahead text low items) :
    Reading (Misplaced text)
      (Parts text low (fun value => [value.node]) Expr.conditionWritten Expr.Grammatical items)
      (Part.condition.read items) := by
  rw [Part.read, Part.step, Step.condition]
  refine (expect_reads _ ahead).bind fun _ afterOpen shortOpen opens => ?_
  refine (expression_reads opens.ahead).bind fun value afterValue _ valueRead => ?_
  refine (expect_reads _ valueRead.taken.ahead).bind fun _ afterClose _ closes => ?_
  exact ⟨⟨_, opens.before (closes.extend valueRead.single), closes.ahead⟩,
    (opens.mark opens.kind_eq).cons (valueRead.spells.append (closes.mark closes.kind_eq)),
    valueRead.holds⟩

theorem forInitializer_reads (ahead : Ahead text low items) :
    Reading (Misplaced text)
      (Parts text low ForInitializer.nodes ForInitializer.written
        (fun initial => ∀ first ∈ initial, first.Grammatical) items)
      (Part.forInitializer.read items) := by
  rw [Part.read, Part.step, Step.forInitializer]
  refine (next_reads _ ahead).bind fun token afterToken shortToken taken => ?_
  dsimp only
  split
  · rename_i kind_eq
    exact ⟨⟨_, taken.le, taken.ahead⟩, taken.mark kind_eq, nofun⟩
  · rename_i kind_eq
    refine (declarators_reads taken.ahead).bind fun declared afterDeclared _ declaredRead => ?_
    obtain ⟨high, fill, declaredAhead⟩ := declaredRead.fill
    refine (expect_reads _ declaredAhead).bind fun _ afterLast _ last => ?_
    refine ⟨⟨_, taken.before (last.extend fill), last.ahead⟩,
      (taken.keyword kind_eq).cons (declaredRead.spells.append (last.mark last.kind_eq)), ?_⟩
    rintro _ ⟨⟩
    exact declaredRead.holds
  · refine (expression_reads ahead).bind fun value afterValue _ valueRead => ?_
    refine (expect_reads _ valueRead.taken.ahead).bind fun _ afterLast _ last => ?_
    refine ⟨⟨_, last.extend valueRead.single, last.ahead⟩,
      valueRead.spells.append (last.mark last.kind_eq), ?_⟩
    rintro _ ⟨⟩
    exact valueRead.holds

/-- The header of a `for` statement as nodes. -/
def ForHeader.nodes (header : ForHeader) : List Node :=
  ForInitializer.nodes header.initializer ++ header.test.toList.map Expr.node ++
    header.after.toList.map Expr.node

theorem forHeader_reads (ahead : Ahead text low items) :
    Reading (Misplaced text)
      (Parts text low ForHeader.nodes ForHeader.written ForHeader.Grammatical items)
      (Part.forHeader.read items) := by
  rw [Part.read, Part.step, Step.forHeader]
  refine (expect_reads _ ahead).bind fun _ afterOpen shortOpen opens => ?_
  refine (forInitializer_reads opens.ahead).bind fun initial afterInitial _ initialRead => ?_
  obtain ⟨high, fill, initialAhead⟩ := initialRead.fill
  refine (optionalBefore_reads initialAhead).bind ?_
  rintro ⟨test, _⟩ afterTest _ testRead
  refine (optionalBefore_reads testRead.taken.ahead).bind ?_
  rintro ⟨after, _⟩ afterAfter _ afterRead
  have parts := (fill.append testRead.fill).append afterRead.fill
  exact ⟨⟨_, opens.before parts, afterRead.taken.ahead⟩, (opens.mark opens.kind_eq).cons
      (initialRead.spells.append (testRead.spells.append afterRead.spells)),
    initialRead.holds, testRead.holds, afterRead.holds⟩

/-- A statement was read.  An `if` without an `else` at its end is not followed by one. -/
structure ReadsStmt (text : List Char) (low : Nat) (items : List LexItem) (read : Stmt)
    (rest : List LexItem) : Prop
    extends Reads text low Stmt.node Stmt.span Stmt.written Stmt.Grammatical items read rest where
  closed : read.endsOpen = true → Lacks (.keyword .elseWord) rest

/-- The body of a control statement was read. -/
structure ReadsBody (text : List Char) (low : Nat) (items : List LexItem) (read : Stmt)
    (rest : List LexItem) : Prop extends ReadsStmt text low items read rest where
  single_statement : read.isDeclaration = false

/-- Statements were read with the closing brace after them. -/
abbrev ReadsStmts (text : List Char) (low : Nat) :
    List LexItem → List Stmt × Token → List LexItem → Prop :=
  Closed text low Stmt.nodes (fun read => Stmt.allWritten read ++ [.mark .closeBrace])
    Stmt.AllGrammatical

theorem controlled_reads {inner : Stmt} (read : ReadsStmt text low items inner rest) :
    Outcome (Misplaced text) (fun other => ReadsBody text low items other rest)
      (controlled inner) := by
  unfold controlled
  split
  · exact misplaced_located read.taken.lies _
  · rename_i noDeclaration
    refine ⟨read, ?_⟩
    cases inner with
    | declaration span declarators => exact absurd rfl (noDeclaration span declarators)
    | _ => rfl

/-- Before an `else` stands no statement that would take it. -/
theorem ReadsStmt.endsOpen_eq_false {inner : Stmt} {after : List LexItem} {high : Nat}
    (read : ReadsStmt text low items inner rest)
    (taken : TakenKind text high (.keyword .elseWord) rest token after) :
    inner.endsOpen = false := by
  rw [Bool.eq_false_iff]
  exact fun isOpen => read.closed isOpen token after taken.items_eq taken.kind_eq

mutual

theorem statement_reads {low : Nat} {items : List LexItem} (ahead : Ahead text low items) :
    Reading (Misplaced text) (ReadsStmt text low items) (Part.statement.read items) := by
  rw [Part.read, Part.step, Step.statement]
  refine (next_reads _ ahead).bind fun first afterFirst shortFirst taken => ?_
  dsimp only
  split
  -- A block.
  · rename_i kind_eq
    refine (statements_reads taken.ahead).bind ?_
    rintro ⟨inner, close⟩ afterClose _ innerRead
    have block := taken.enclosing innerRead.taken innerRead.fill
    exact ⟨⟨⟨⟨block.2.delimited, nofun, le_rfl, block.1, le_rfl⟩, rfl, block.2⟩,
      (taken.mark kind_eq).cons innerRead.spells, innerRead.holds⟩, nofun⟩
  -- A declaration.
  · rename_i kind_eq
    refine (declarators_reads taken.ahead).bind fun declared afterDeclared _ declaredRead => ?_
    obtain ⟨high, fill, declaredAhead⟩ := declaredRead.fill
    refine (expect_reads _ declaredAhead).bind fun last afterLast _ lastRead => ?_
    have whole := taken.enclosing lastRead.toTaken (lastRead.extend fill)
    exact ⟨⟨⟨whole.1, rfl, whole.2⟩, (taken.keyword kind_eq).cons
        (declaredRead.spells.append (lastRead.mark lastRead.kind_eq)), declaredRead.holds⟩, nofun⟩
  -- An `if` statement.
  · rename_i kind_eq
    refine (condition_reads taken.ahead).bind fun test afterTest shortTest testRead => ?_
    obtain ⟨high, fill, testAhead⟩ := testRead.fill
    refine (body_reads testAhead).bind fun positive afterPositive shortPositive read => ?_
    have thenFill := fill.append read.single
    refine (eat?_reads _ read.taken.ahead).bind (fun lacksElse => ?noElse) ?withElse
    case noElse =>
      have whole := taken.enclosing read.taken thenFill
      exact ⟨⟨⟨whole.1, rfl, whole.2⟩,
          (taken.keyword kind_eq).cons (testRead.spells.append read.spells),
          testRead.holds, read.holds, read.single_statement⟩, fun _ => lacksElse⟩
    case withElse =>
      intro _ afterElse shortElse elseRead
      refine (body_reads elseRead.ahead).bind fun negative afterNegative _ negativeRead => ?_
      have whole := taken.enclosing negativeRead.taken
        (thenFill.append (elseRead.before negativeRead.single))
      have isClosed := read.endsOpen_eq_false elseRead
      exact ⟨⟨⟨whole.1, rfl, whole.2⟩, (taken.keyword kind_eq).cons
            ((testRead.spells.append read.spells).append
              ((elseRead.keyword elseRead.kind_eq).cons negativeRead.spells)),
          testRead.holds, ⟨read.holds, read.single_statement, isClosed⟩, negativeRead.holds,
          negativeRead.single_statement⟩, negativeRead.closed⟩
  -- A `while` loop.
  · rename_i kind_eq
    refine (condition_reads taken.ahead).bind fun test afterTest shortTest testRead => ?_
    obtain ⟨high, fill, testAhead⟩ := testRead.fill
    refine (body_reads testAhead).bind fun inner afterInner _ innerRead => ?_
    have whole := taken.enclosing innerRead.taken (fill.append innerRead.single)
    exact ⟨⟨⟨whole.1, rfl, whole.2⟩,
        (taken.keyword kind_eq).cons (testRead.spells.append innerRead.spells),
        testRead.holds, innerRead.holds, innerRead.single_statement⟩, innerRead.closed⟩
  -- A `do` loop.
  · rename_i kind_eq
    refine (body_reads taken.ahead).bind fun inner afterInner shortInner innerRead => ?_
    refine (expect_reads _ innerRead.taken.ahead).bind fun _ afterWhile _ whileRead => ?_
    refine (condition_reads whileRead.ahead).bind fun test afterTest _ testRead => ?_
    obtain ⟨high, fill, testAhead⟩ := testRead.fill
    refine (expect_reads _ testAhead).bind fun last afterLast _ lastRead => ?_
    have parts := innerRead.single.append (whileRead.before fill)
    have whole := taken.enclosing lastRead.toTaken (lastRead.extend parts)
    exact ⟨⟨⟨whole.1, rfl, whole.2⟩, (taken.keyword kind_eq).cons (innerRead.spells.append
          ((whileRead.keyword whileRead.kind_eq).cons
            (testRead.spells.append (lastRead.mark lastRead.kind_eq)))),
        ⟨innerRead.holds, innerRead.single_statement⟩, testRead.holds⟩, nofun⟩
  -- A `for` loop.
  · rename_i kind_eq
    refine (forHeader_reads taken.ahead).bind fun header afterHeader shortHeader headerRead => ?_
    obtain ⟨high, fill, headerAhead⟩ := headerRead.fill
    refine (body_reads headerAhead).bind fun inner afterInner _ innerRead => ?_
    have whole := taken.enclosing innerRead.taken (fill.append innerRead.single)
    obtain ⟨initial, test, after⟩ := headerRead.holds
    have spells := (taken.keyword kind_eq).cons (headerRead.spells.append innerRead.spells)
    rw [← written_forLoop] at spells
    exact ⟨⟨⟨whole.1, rfl, whole.2⟩, spells, initial, test, after, innerRead.holds,
      innerRead.single_statement⟩, innerRead.closed⟩
  -- Leaving a loop, or its round.
  iterate 2
    · rename_i kind_eq
      refine (expect_reads _ taken.ahead).bind fun last afterLast _ lastRead => ?_
      have whole := taken.enclosing lastRead.toTaken (Fill.nil lastRead.le)
      exact ⟨⟨⟨whole.1, rfl, whole.2⟩,
        (taken.keyword kind_eq).cons (lastRead.mark lastRead.kind_eq), trivial⟩, nofun⟩
  -- A `return` statement.
  · rename_i kind_eq
    refine (optionalBefore_reads taken.ahead).bind ?_
    rintro ⟨value, last⟩ afterLast _ valueRead
    have whole := taken.enclosing valueRead.taken valueRead.fill
    exact ⟨⟨⟨whole.1, rfl, whole.2⟩, (taken.keyword kind_eq).cons valueRead.spells,
      valueRead.holds⟩, nofun⟩
  -- A semicolon, or an expression and a semicolon.
  · rename_i kind_eq
    exact ⟨⟨⟨laidOut_leaf taken.delimited, rfl, taken.toTaken⟩, taken.mark kind_eq, trivial⟩, nofun⟩
  · refine (expression_reads ahead).bind fun value afterValue _ valueRead => ?_
    refine (expect_reads _ valueRead.taken.ahead).bind fun last afterLast _ lastRead => ?_
    have whole := valueRead.starting lastRead.toTaken (Fill.nil lastRead.le)
    exact ⟨⟨⟨whole.1, rfl, whole.2⟩, valueRead.spells.append (lastRead.mark lastRead.kind_eq),
      valueRead.holds⟩, nofun⟩
  termination_by (items.length, 0)
  decreasing_by all_goals exact Prod.Lex.left _ _ (by omega)

theorem body_reads {low : Nat} {items : List LexItem} (ahead : Ahead text low items) :
    Reading (Misplaced text) (ReadsBody text low items) (Part.body.read items) := by
  rw [Part.read, Part.step, Step.body]
  refine (statement_reads ahead).bind fun inner afterInner shortInner innerRead => ?_
  refine (controlled_reads innerRead).bind fun other otherRead => ?_
  exact otherRead
  termination_by (items.length, 1)
  decreasing_by exact Prod.Lex.right _ (by omega)

theorem statements_reads {low : Nat} {items : List LexItem} (ahead : Ahead text low items) :
    Reading (Misplaced text) (ReadsStmts text low items) (Part.statements.read items) := by
  rw [Part.read, Part.step, Step.statements]
  refine (next_reads _ ahead).bind fun token afterToken shortToken taken => ?_
  dsimp only
  split
  · rename_i kind_eq
    exact ⟨taken.le, taken.toTaken, taken.mark kind_eq, trivial⟩
  · refine (statement_reads ahead).bind fun first afterFirst shortFirst firstRead => ?_
    refine (statements_reads firstRead.taken.ahead).bind ?_
    rintro ⟨others, close⟩ afterClose _ othersRead
    refine ⟨firstRead.cons othersRead.fill, othersRead.taken.mono firstRead.taken.le, ?_,
      firstRead.holds, othersRead.holds⟩
    simp only [Stmt.allWritten, List.append_assoc]
    exact firstRead.spells.append othersRead.spells
  termination_by (items.length, 1)
  decreasing_by
    · exact Prod.Lex.right _ (by omega)
    · exact Prod.Lex.left _ _ (by omega)

end

/-! ## Programs -/

theorem parameterList_reads {low : Nat} {items : List LexItem} (ahead : Ahead text low items) :
    Reading (Misplaced text)
      (Parts text low (List.map Parameter.node)
        (fun given => commaSeparated (given.map Parameter.written) ++ [Written.mark .closeParen])
        (fun given => given ≠ [] ∧ ∀ parameter ∈ given, parameter.name.Grammatical) items)
      (Part.parameterList.read items) := by
  rw [Part.read, Part.step, Step.parameterList]
  refine (expect_reads _ ahead).bind fun word afterWord shortWord wordRead => ?_
  refine (identifier_reads wordRead.ahead).bind fun name afterName shortName nameRead => ?_
  have whole := wordRead.enclosing nameRead.taken nameRead.single
  have read : Phrase text low Parameter.node Parameter.span
      ⟨word.span.through name.span, name⟩ afterName :=
    ⟨whole.1, rfl, whole.2⟩
  have firstSpells := (wordRead.keyword wordRead.kind_eq).cons nameRead.spells
  refine (eat?_reads _ read.taken.ahead).bind (fun _ => ?last) ?comma
  case last =>
    refine (expect_reads _ read.taken.ahead).bind fun _ afterClose _ closes => ?_
    refine ⟨⟨_, closes.extend read.single, closes.ahead⟩, ?_, List.cons_ne_nil _ _,
      List.forall_mem_singleton.mpr nameRead.holds⟩
    rw [List.map_singleton, commaSeparated_singleton]
    exact firstSpells.append (closes.mark closes.kind_eq)
  case comma =>
    intro _ afterComma shortComma comma
    refine (parameterList_reads comma.ahead).bind fun others afterOthers _ othersRead => ?_
    obtain ⟨high, fill, othersAhead⟩ := othersRead.fill
    obtain ⟨nonempty, othersGrammatical⟩ := othersRead.holds
    refine ⟨⟨high, read.cons (comma.before fill), othersAhead⟩, ?_, List.cons_ne_nil _ _,
      List.forall_mem_cons.mpr ⟨nameRead.holds, othersGrammatical⟩⟩
    rw [List.map_cons, commaSeparated_cons (List.map_eq_nil_iff.not.mpr nonempty),
      List.append_assoc]
    exact firstSpells.append ((comma.mark comma.kind_eq).cons othersRead.spells)
  termination_by items.length

theorem parameters_reads (ahead : Ahead text low items) :
    Reading (Misplaced text)
      (Parts text low (List.map Parameter.node) Parameter.allWritten
        (fun given => ∀ parameter ∈ given, parameter.name.Grammatical) items)
      (Part.parameters.read items) := by
  rw [Part.read, Part.step, Step.parameters]
  refine (expect_reads _ ahead).bind fun _ afterOpen shortOpen opens => ?_
  have openSpells := opens.mark opens.kind_eq
  refine (eat?_reads _ opens.ahead).bind (fun _ => ?noVoid) ?void
  case noVoid =>
    refine (eat?_reads _ opens.ahead).bind (fun _ => ?given) ?empty
    case given =>
      refine (parameterList_reads opens.ahead).bind fun given afterGiven _ givenRead => ?_
      obtain ⟨high, fill, givenAhead⟩ := givenRead.fill
      obtain ⟨nonempty, grammatical⟩ := givenRead.holds
      obtain ⟨first, others, rfl⟩ := List.exists_cons_of_ne_nil nonempty
      exact ⟨⟨high, opens.before fill, givenAhead⟩, openSpells.cons givenRead.spells, grammatical⟩
    case empty =>
      intro _ afterClose _ closes
      exact ⟨⟨_, opens.before (Fill.nil closes.le), closes.ahead⟩,
        .admitted (.inl rfl) (openSpells.cons (closes.mark closes.kind_eq)), nofun⟩
  case void =>
    intro _ afterVoid _ void
    refine (expect_reads _ void.ahead).bind fun _ afterClose _ closes => ?_
    have spells := openSpells.cons ((void.keyword void.kind_eq).cons (closes.mark closes.kind_eq))
    exact ⟨⟨_, opens.before (void.before (Fill.nil closes.le)), closes.ahead⟩,
      .admitted (.inr rfl) spells, nofun⟩

theorem returnType_reads (taken : TakenToken text low items token rest) :
    Outcome (Misplaced text) (fun type => Spells [.keyword type.keyword] items rest)
      (returnType token) := by
  unfold returnType
  split
  iterate 2
    · rename_i kind_eq
      exact taken.keyword kind_eq
  · exact misplaced_located taken.lies _

theorem block_reads (ahead : Ahead text low items) :
    Reading (Misplaced text)
      (Reads text low Block.node Block.span
        (fun read =>
          .mark .openBrace :: (Stmt.allWritten read.statements ++ [Written.mark .closeBrace]))
        (fun read => Stmt.AllGrammatical read.statements) items)
      (Part.block.read items) := by
  rw [Part.read, Part.step, Step.block]
  refine (expect_reads _ ahead).bind fun first afterFirst shortFirst opens => ?_
  refine (statements_reads opens.ahead).bind ?_
  rintro ⟨inner, last⟩ afterLast _ innerRead
  have whole := opens.enclosing innerRead.taken innerRead.fill
  exact ⟨⟨whole.1, rfl, whole.2⟩, (opens.mark opens.kind_eq).cons innerRead.spells, innerRead.holds⟩

theorem functionDef_reads (ahead : Ahead text low items) :
    Reading (Misplaced text)
      (Reads text low FunctionDef.node FunctionDef.span FunctionDef.written FunctionDef.Grammatical
        items)
      (Part.functionDef.read items) := by
  rw [Part.read, Part.step, Step.functionDef]
  refine (next_reads _ ahead).bind fun token afterToken shortToken taken => ?_
  refine (returnType_reads taken).bind fun type typeSpells => ?_
  refine (identifier_reads taken.ahead).bind fun name afterName shortName nameRead => ?_
  refine (parameters_reads nameRead.taken.ahead).bind fun given afterGiven _ givenRead => ?_
  obtain ⟨high, fill, givenAhead⟩ := givenRead.fill
  refine (block_reads givenAhead).bind fun inner afterInner _ innerRead => ?_
  have whole := taken.enclosing innerRead.taken ((nameRead.cons fill).append innerRead.single)
  exact ⟨⟨whole.1, rfl, whole.2⟩,
    typeSpells.cons (nameRead.spells.cons (givenRead.spells.append innerRead.spells)),
    nameRead.holds, givenRead.holds, innerRead.holds⟩

theorem functionDefs_reads {low : Nat} {items : List LexItem} (ahead : Ahead text low items) :
    Reading (Misplaced text)
      (fun functions rest => rest = [] ∧
        (∃ high, Fill text low high (functions.map FunctionDef.node)) ∧
        Spells (functions.flatMap FunctionDef.written) items [] ∧
        ∀ function ∈ functions, function.Grammatical)
      (Part.functionDefs.read items) := by
  rw [Part.read, Part.step, Step.functionDefs]
  split
  · rename_i isEmpty
    cases List.isEmpty_iff.mp isEmpty
    exact ⟨rfl, ⟨low, le_refl low⟩, .nil [], List.forall_mem_nil _⟩
  · refine (functionDef_reads ahead).bind fun first afterFirst shortFirst firstRead => ?_
    refine (functionDefs_reads firstRead.taken.ahead).bind ?_
    rintro others _ _ ⟨rfl, ⟨high, fill⟩, othersSpells, grammatical⟩
    refine ⟨rfl, ⟨high, firstRead.cons fill⟩, ?_,
      List.forall_mem_cons.mpr ⟨firstRead.holds, grammatical⟩⟩
    rw [List.flatMap_cons]
    exact firstRead.spells.append othersSpells
  termination_by items.length
  decreasing_by exact shortFirst

end SmallC.Parse

namespace SmallC

open Node

/-- The functions of a text lie in it one after another, are grammatical and are spelt by its items,
and the place of its first syntax error lies in it. -/
theorem parseProgram_reads (text : List Char) :
    Outcome (fun error : SyntaxError => error.span.LiesIn text)
      (fun program => (∃ high, Fill text 0 high program.nodes) ∧
        program.endOffset = Text.byteLength text ∧ program.Grammatical ∧
        Spells program.written (lexItems text) [])
      (parseProgram text) := by
  have outcome := Parse.functionDefs_reads ⟨placed_lexItems text, List.Subset.refl _⟩
  unfold parseProgram Parse.functionDefs
  cases read : Parse.Part.functionDefs.read (lexItems text) with
  | ok parsed =>
    rw [read] at outcome
    obtain ⟨-, fill, spells, grammatical⟩ := outcome
    exact ⟨fill, rfl, grammatical, spells⟩
  | error failure =>
    rw [read] at outcome
    obtain ⟨cause, _ | span⟩ := failure
    · exact Span.LiesIn.point_end text
    · exact outcome span rfl

/-- The tree of an accepted text is grammatical, and is spelt by the items of the text. -/
theorem Program.spells_of_parse {text : List Char} {program : Program}
    (parsed : parseProgram text = .ok program) :
    program.Grammatical ∧ Spells program.written (lexItems text) [] :=
  ((parseProgram_reads text).of_eq_ok parsed).2.2

/-- The tree of a text is well-formed. -/
theorem Program.wellFormed_of_parse {text : List Char} {program : Program}
    (parsed : parseProgram text = .ok program) : program.WellFormed :=
  (spells_of_parse parsed).1.wellFormed

/-- The tree of an accepted text is grammatical, and the items of the text are tokens that are a way
to write it: exactly the tokens of the tree, but for parentheses around targets of assignments and
for the word `void` in empty lists of parameters. -/
theorem accepted_only_as_written {text : List Char} {program : Program}
    (parsed : parseProgram text = .ok program) :
    program.Grammatical ∧ ∃ tokens : List Token, lexItems text = tokens.map .ok ∧
      Writes program.written (tokens.map Token.lexeme) := by
  obtain ⟨grammatical, lexemes, writes, spelt⟩ := Program.spells_of_parse parsed
  obtain ⟨tokens, items_eq, rfl⟩ := spelt.exists_tokens
  exact ⟨grammatical, tokens, items_eq, writes⟩

/-- A text with both kinds of choices, assignments that nest to the right, operators of many ranks,
the least integer literal and an `else` after two `if`s. -/
def choicesText : String :=
  "int f(void) \x7b return 0; \x7d\n" ++
  "int main() \x7b int x, y = 'a'; ((x)) = y -= -2147483648 + f() * 3 << 1 && !x == 2;\n" ++
  "  if (x) if (y) x++; else --y; return x; \x7d"

theorem accepted_only_as_written_choices :
    ∃ program, parseProgram choicesText.toList = .ok program ∧ program.Grammatical ∧
      ∃ tokens : List Token, lexItems choicesText.toList = tokens.map .ok ∧
        Writes program.written (tokens.map Token.lexeme) := by
  have evaluated : (parseProgram choicesText.toList).toOption.isSome = true := by
    cbv
  obtain ⟨program, parsed⟩ := exists_ok_of_isSome evaluated
  exact ⟨program, parsed, accepted_only_as_written parsed⟩

end SmallC
