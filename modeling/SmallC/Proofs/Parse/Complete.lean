import SmallC.Proofs.Parse.Spelling

/-!
# The whole grammar is accepted

A reader takes the tokens of a grammatical tree, whatever follows them that does not go on with the
tree, and gives the tree back up to spans.  Operators of one rank are read in a loop that joins
operands from the left, so an expression is followed up to the loop and not through it: what is
proved of the loop after the first operand holds of the whole.
-/

namespace SmallC

/-! ## Tokens of a tree -/

/-- A lexeme as a token at a place. -/
def Lexeme.token (lexeme : Lexeme) (span : Span) : Token :=
  ⟨lexeme.kind, span, lexeme.text⟩

theorem Lexeme.kind_mark (punctuator : Punctuator) (span : Span) :
    ((mark punctuator).token span).kind = .punctuator punctuator :=
  rfl

theorem Lexeme.kind_keyword (word : Keyword) (span : Span) :
    ((keyword word).token span).kind = .keyword word :=
  rfl

theorem Ident.kind_lexeme (name : Ident) (span : Span) :
    (name.lexeme.token span).kind = .identifier :=
  rfl

section Spells

variable {parts others : List Written} {items rest : List LexItem}

@[simp]
theorem spells_nil : Spells [] items rest ↔ items = rest :=
  ⟨fun ⟨_, writes, spelt⟩ => by cases writes; exact spelt, fun same => ⟨[], rfl, same⟩⟩

@[simp]
theorem spells_append : Spells (parts ++ others) items rest ↔
    ∃ middle, Spells parts items middle ∧ Spells others middle rest := by
  constructor
  · rintro ⟨_, writes, spelt⟩
    obtain ⟨front, back, rfl, frontWrites, backWrites⟩ := writes_append.mp writes
    obtain ⟨middle, frontSpelt, backSpelt⟩ := spelt_append.mp spelt
    exact ⟨middle, ⟨front, frontWrites, frontSpelt⟩, back, backWrites, backSpelt⟩
  · rintro ⟨middle, front, back⟩
    exact front.append back

theorem spells_singleton {part : Written} :
    Spells [part] items rest ↔ ∃ lexemes, part.Admits lexemes ∧ Spelt lexemes items rest :=
  exists_congr fun _ => and_congr_left' writes_singleton

variable {lexeme : Lexeme} {kind : TokenKind}

theorem spelt_cons {lexemes : List Lexeme} :
    Spelt (lexeme :: lexemes) items rest ↔
      ∃ span after, items = .ok (lexeme.token span) :: after ∧ Spelt lexemes after rest := by
  constructor
  · rintro ⟨⟨kind, span, text⟩, after, rfl, rfl, spelt⟩
    exact ⟨span, after, rfl, spelt⟩
  · rintro ⟨span, after, rfl, spelt⟩
    exact ⟨lexeme.token span, after, rfl, rfl, spelt⟩

@[simp]
theorem spells_plain : Spells (.plain lexeme :: others) items rest ↔
    ∃ span after, items = .ok (lexeme.token span) :: after ∧ Spells others after rest := by
  constructor
  · rintro ⟨_, ⟨_, back, rfl, rfl, writes⟩, spelt⟩
    obtain ⟨span, after, items_eq, later⟩ := spelt_cons.mp spelt
    exact ⟨span, after, items_eq, back, writes, later⟩
  · rintro ⟨span, after, rfl, spells⟩
    have lexeme_eq : (lexeme.token span).lexeme = lexeme := rfl
    exact (Spells.plain lexeme_eq after).cons spells

theorem spells_last :
    Spells [.plain lexeme] items rest ↔ ∃ span, items = .ok (lexeme.token span) :: rest := by
  simp

/-- Lexemes that are written in one way. -/
theorem spells_lexemes {lexemes : List Lexeme} (spelt : Spelt lexemes items rest) :
    Spells (lexemes.map .plain) items rest := by
  induction lexemes generalizing items with
  | nil => exact spells_nil.mpr spelt
  | cons lexeme lexemes ih =>
    obtain ⟨span, after, rfl, later⟩ := spelt_cons.mp spelt
    exact spells_plain.mpr ⟨span, after, rfl, ih later⟩

/-- Parts are spelt by their lexemes, written without anything that can be left out. -/
theorem writes_lexemesOf (parts : List Written) : Writes parts (lexemesOf parts) := by
  induction parts with
  | nil => rfl
  | cons part parts ih =>
    refine ⟨part.lexemes, _, List.flatMap_cons, ?_, ih⟩
    cases part with
    | plain lexeme => rfl
    | target name => exact ⟨0, rfl⟩
    | noParameters => exact .inl rfl

/-- A name in a number of parentheses. -/
def Ident.grouped (name : Ident) : Nat → Expr
  | 0 => .identifier name
  | depth + 1 => .group (.point 0) (name.grouped depth)

theorem Ident.written_grouped (name : Ident) (depth : Nat) :
    (name.grouped depth).written = (List.replicate depth (Lexeme.mark .openParen) ++
      name.lexeme :: List.replicate depth (Lexeme.mark .closeParen)).map .plain := by
  induction depth with
  | zero => rfl
  | succ depth ih =>
    rw [grouped, Expr.written, ih, List.replicate_succ, List.replicate_succ']
    simp

/-- A target is read as a name in parentheses. -/
theorem spells_target {name : Ident} (spells : Spells (.target name :: others) items rest) :
    ∃ depth middle, Spells (name.grouped depth).written items middle ∧
      Spells others middle rest := by
  have apart : Spells ([Written.target name] ++ others) items rest := spells
  obtain ⟨middle, front, back⟩ := spells_append.mp apart
  obtain ⟨_, ⟨depth, rfl⟩, spelt⟩ := spells_singleton.mp front
  refine ⟨depth, middle, ?_, back⟩
  rw [Ident.written_grouped]
  exact spells_lexemes spelt

end Spells

/-! ## What may follow -/

/-- Items that are at their end or go on with a token of a kind that halts a reader. -/
def Halts (halting : TokenKind → Prop) : List LexItem → Prop
  | [] => True
  | .error _ :: _ => False
  | .ok token :: _ => halting token.kind

theorem Halts.mono {stronger weaker : TokenKind → Prop} {items : List LexItem}
    (halts : Halts stronger items) (weaken : ∀ kind, stronger kind → weaker kind) :
    Halts weaker items := by
  match items with
  | [] => trivial
  | .error _ :: _ => exact halts
  | .ok token :: _ => exact weaken token.kind halts

theorem halts_mark {punctuator : Punctuator} (different : .punctuator punctuator ≠ kind)
    (span : Span) (rest : List LexItem) :
    Halts (· ≠ kind) (.ok ((Lexeme.mark punctuator).token span) :: rest) :=
  different

theorem halts_keyword {word : Keyword} (different : .keyword word ≠ kind) (span : Span)
    (rest : List LexItem) :
    Halts (· ≠ kind) (.ok ((Lexeme.keyword word).token span) :: rest) :=
  different

/-- The kinds of tokens that do not go on with an operand whose operators have ranks below
`rank`. -/
structure EndsOperand (rank : Nat) (kind : TokenKind) : Prop where
  noCall : kind ≠ .punctuator .openParen
  noStep : ∀ op : StepOp, kind ≠ .punctuator op.mark
  looser : ∀ op : BinaryOp, kind = .punctuator op.mark → rank ≤ op.rank

/-- The kinds of tokens that do not go on with an expression. -/
structure EndsExpr (kind : TokenKind) : Prop extends EndsOperand BinaryOp.rankCount kind where
  noAssignment : ∀ op, kind ≠ .punctuator (assignmentMark op)

theorem EndsOperand.mono {rank lower : Nat} (ends : EndsOperand rank kind) (le : lower ≤ rank) :
    EndsOperand lower kind :=
  ⟨ends.noCall, ends.noStep, fun op kind_eq => le.trans (ends.looser op kind_eq)⟩

/-- A binary operator does not go on with an operand that binds tighter than it. -/
theorem endsOperand_binary (op : BinaryOp) : EndsOperand op.rank (.punctuator op.mark) := by
  refine ⟨?noCall, ?noStep, ?looser⟩
  case noCall => rcases op with op | op | op <;> cases op <;> nofun
  case noStep =>
    intro step
    rcases op with op | op | op <;> cases op <;> cases step <;> nofun
  case looser =>
    intro other kind_eq
    have found := Punctuator.binaryOp?_eq_some_iff.mpr (TokenKind.punctuator.inj kind_eq)
    rw [Punctuator.binaryOp?_eq_some_iff.mpr rfl] at found
    cases found
    exact Nat.le_refl _

/-- An assignment does not go on with an operand. -/
theorem endsOperand_assignment (op : Option ArithmeticOp) :
    EndsOperand BinaryOp.rankCount (.punctuator (assignmentMark op)) := by
  refine ⟨?noCall, ?noStep, ?looser⟩
  case noCall =>
    rcases op with _ | op
    · nofun
    · cases op <;> nofun
  case noStep =>
    intro step
    rcases op with _ | op
    · cases step <;> nofun
    · cases op <;> cases step <;> nofun
  case looser =>
    intro other kind_eq
    have found := Punctuator.binaryOp?_eq_some_iff.mpr (TokenKind.punctuator.inj kind_eq)
    rcases op with _ | op
    · cases found
    · cases op <;> cases found

/-- A punctuator without a meaning in expressions ends them. -/
theorem endsExpr_of_none {punctuator : Punctuator} (noCall : punctuator ≠ .openParen)
    (noStep : punctuator.stepOp? = none) (noBinary : punctuator.binaryOp? = none)
    (noAssignment : punctuator.assignment? = none) : EndsExpr (.punctuator punctuator) := by
  refine ⟨⟨fun kind_eq => noCall (TokenKind.punctuator.inj kind_eq), ?step, ?binary⟩, ?assignment⟩
  case step =>
    intro op kind_eq
    rw [Punctuator.stepOp?_eq_some_iff.mpr (TokenKind.punctuator.inj kind_eq)] at noStep
    cases noStep
  case binary =>
    intro op kind_eq
    rw [Punctuator.binaryOp?_eq_some_iff.mpr (TokenKind.punctuator.inj kind_eq)] at noBinary
    cases noBinary
  case assignment =>
    intro op kind_eq
    rw [Punctuator.assignment?_eq_some_iff.mpr (TokenKind.punctuator.inj kind_eq)] at noAssignment
    cases noAssignment

theorem endsExpr_closeParen : EndsExpr (.punctuator .closeParen) :=
  endsExpr_of_none nofun rfl rfl rfl

theorem endsExpr_comma : EndsExpr (.punctuator .comma) :=
  endsExpr_of_none nofun rfl rfl rfl

theorem endsExpr_semicolon : EndsExpr (.punctuator .semicolon) :=
  endsExpr_of_none nofun rfl rfl rfl

namespace Parse

variable {items rest : List LexItem} {token : Token} {rank : Nat} {value : Expr}

/-! ## Taking tokens -/

/-- Nothing fails here. -/
abbrev NoFailure (_ : ParseFailure) : Prop :=
  False

theorem take?_eq_none {α : Type} {use : Token → Option α} {halting : TokenKind → Prop}
    (halts : Halts halting items)
    (unused : ∀ token : Token, halting token.kind → use token = none) :
    take? use items = .ok none := by
  match items with
  | [] => rfl
  | .error _ :: _ => exact halts.elim
  | .ok token :: _ => rw [take?, unused token halts]; rfl

theorem take?_eq_some {α : Type} {use : Token → Option α} {value : α}
    (used : use token = some value) :
    take? use (.ok token :: rest) = .ok (some ⟨value, rest, by simp⟩) := by
  rw [take?, used]
  rfl

theorem eat?_eq_none (halts : Halts (· ≠ kind) items) : eat? kind items = .ok none :=
  take?_eq_none halts fun _ different => if_neg different

theorem eat?_eq_some (token : Token) (rest : List LexItem) :
    eat? token.kind (.ok token :: rest) = .ok (some ⟨token, rest, by simp⟩) :=
  take?_eq_some (if_pos rfl)

theorem eat?_mark (punctuator : Punctuator) (span : Span) (rest : List LexItem) :
    eat? (.punctuator punctuator) (.ok ((Lexeme.mark punctuator).token span) :: rest) =
      .ok (some ⟨(Lexeme.mark punctuator).token span, rest, by simp⟩) :=
  eat?_eq_some ((Lexeme.mark punctuator).token span) rest

theorem eat?_keyword (word : Keyword) (span : Span) (rest : List LexItem) :
    eat? (.keyword word) (.ok ((Lexeme.keyword word).token span) :: rest) =
      .ok (some ⟨(Lexeme.keyword word).token span, rest, by simp⟩) :=
  eat?_eq_some ((Lexeme.keyword word).token span) rest

theorem expect_mark (punctuator : Punctuator) (span : Span) (rest : List LexItem) :
    expect (.punctuator punctuator) (.ok ((Lexeme.mark punctuator).token span) :: rest) =
      .ok ⟨(Lexeme.mark punctuator).token span, rest, by simp⟩ := by
  simp [expect, next, Lexeme.kind_mark]

theorem expect_keyword (word : Keyword) (span : Span) (rest : List LexItem) :
    expect (.keyword word) (.ok ((Lexeme.keyword word).token span) :: rest) =
      .ok ⟨(Lexeme.keyword word).token span, rest, by simp⟩ := by
  simp [expect, next, Lexeme.kind_keyword]

theorem identifier_eq_ok (name : Ident) (span : Span) (rest : List LexItem) :
    identifier (.ok (name.lexeme.token span) :: rest) = .ok ⟨⟨name.name, span⟩, rest, by simp⟩ :=
  rfl

theorem step?_eq_none (differs : ∀ op : StepOp, token.kind ≠ .punctuator op.mark) :
    step? token = none := by
  refine Option.eq_none_iff_forall_ne_some.mpr ?_
  rintro ⟨op, span⟩ found
  exact differs op (step?_eq_some_iff.mp found).1

theorem assignment?_eq_none (differs : ∀ op, token.kind ≠ .punctuator (assignmentMark op)) :
    assignment? token = none := by
  refine Option.eq_none_iff_forall_ne_some.mpr ?_
  rintro ⟨op, span⟩ found
  exact differs op (assignment?_eq_some_iff.mp found).1

theorem binaryOfRank?_eq_none
    (looser : ∀ op : BinaryOp, token.kind = .punctuator op.mark → rank < op.rank) :
    binaryOfRank? rank token = none := by
  refine Option.eq_none_iff_forall_ne_some.mpr ?_
  rintro ⟨op, span⟩ found
  obtain ⟨kind_eq, rank_eq, -⟩ := binaryOfRank?_eq_some_iff.mp found
  exact absurd rank_eq (looser op kind_eq).ne'

/-! ## Operators of one rank -/

/-- What was read is as expected once spans are erased, and all after it is left. -/
def GivesBack {α β : Type} (erase : α → β) (expected : β) (rest : List LexItem) (read : α)
    (after : List LexItem) : Prop :=
  erase read = expected ∧ rest = after

/-- The tokens of an expression are read as an operand whose operators have ranks below `rank`. -/
def ReadAsOperand (rank : Nat) (value : Expr) : Prop :=
  ∀ items rest, Spells value.written items rest → Halts (EndsOperand rank) rest →
    Reading NoFailure (GivesBack Expr.erased value.erased rest) ((Part.binary rank).read items)

/-- The tokens of an expression are read up to the loop over operators of a rank. -/
def ReadUpToLoop (rank : Nat) (value : Expr) : Prop :=
  ∀ (reads : Expr → List LexItem → Prop) (items rest : List LexItem),
    Spells value.written items rest → Halts (EndsOperand rank) rest →
    (∀ read, read.erased = value.erased →
      Reading NoFailure reads ((Part.binaryTail rank read).read rest)) →
    Reading NoFailure reads ((Part.binary (rank + 1)).read items)

/-- The loop over operators of a rank ends where no such operator follows. -/
theorem binaryTail_eq_ok (halts : Halts (EndsOperand (rank + 1)) rest) (left : Expr) :
    (Part.binaryTail rank left).read rest = .ok ⟨left, rest, Nat.lt_succ_self _⟩ := by
  have none_eq : take? (binaryOfRank? rank) rest = .ok none :=
    take?_eq_none halts fun token ends => binaryOfRank?_eq_none ends.looser
  rw [Part.read, Part.step, Step.binaryTail, none_eq]
  rfl

theorem ReadAsOperand.upToLoop (reads : ReadAsOperand rank value) : ReadUpToLoop rank value := by
  intro after items rest spelled halts loop
  rw [Part.read, Part.step, Step.binary]
  refine (reads items rest spelled halts).bind ?_
  rintro first _ shortFirst ⟨same, rfl⟩
  refine (loop first same).bind fun joined afterAll shortAll holds => ?_
  exact holds

theorem ReadUpToLoop.asOperand (reads : ReadUpToLoop rank value) :
    ReadAsOperand (rank + 1) value := by
  intro items rest spelled halts
  have halts' := halts.mono fun kind ends => EndsOperand.mono ends (Nat.le_succ rank)
  refine reads _ items rest spelled halts' fun read same => ?_
  rw [binaryTail_eq_ok halts]
  exact ⟨same, rfl⟩

/-- An operand is also one where looser operators may follow. -/
theorem ReadAsOperand.mono {looser : Nat} (reads : ReadAsOperand rank value) (le : rank ≤ looser) :
    ReadAsOperand looser value := by
  induction looser, le using Nat.le_induction with
  | base => exact reads
  | succ looser _ ih => exact ih.upToLoop.asOperand

/-- The loop goes on with an operator of its rank. -/
theorem readUpToLoop_binary {op : BinaryOp} {left right : Expr} (span opSpan : Span)
    (leftReads : ReadUpToLoop op.rank left) (rightReads : ReadAsOperand op.rank right) :
    ReadUpToLoop op.rank (.binary span op opSpan left right) := by
  intro reads items rest spelled halts loop
  rw [Expr.written, spells_append] at spelled
  obtain ⟨middle, leftSpelled, spelled⟩ := spelled
  obtain ⟨place, afterOp, rfl, rightSpelled⟩ := spells_plain.mp spelled
  have used : binaryOfRank? op.rank ((Lexeme.mark op.mark).token place) = some (op, place) :=
    binaryOfRank?_eq_some_iff.mpr ⟨rfl, rfl, rfl⟩
  refine leftReads reads items _ leftSpelled (endsOperand_binary op) fun readLeft sameLeft => ?_
  rw [Part.read, Part.step, Step.binaryTail, take?_eq_some used, ok_bind]
  refine (rightReads afterOp rest rightSpelled halts).bind ?_
  rintro readRight _ shortRight ⟨sameRight, rfl⟩
  refine (loop _ ?_).bind fun all afterAll shortAll holds => ?_
  · rw [Expr.erased, Expr.erased, sameLeft, sameRight]
  · exact holds

/-! ## Expressions -/

/-- The tokens of an expression are read as an expression. -/
def ReadAsExpr (value : Expr) : Prop :=
  ∀ items rest, Spells value.written items rest → Halts EndsExpr rest →
    Reading NoFailure (GivesBack Expr.erased value.erased rest) (Part.expression.read items)

/-- The tokens of an expression are read wherever the expression may stand. -/
structure ReadBack (value : Expr) : Prop where
  operand : ∀ rank, value.level ≤ rank → rank ≤ BinaryOp.rankCount → ReadAsOperand rank value
  loop : ∀ rank, value.level ≤ rank + 1 → rank < BinaryOp.rankCount → ReadUpToLoop rank value
  expr : ReadAsExpr value

/-- An operand that no assignment follows is an expression. -/
theorem ReadAsOperand.asExpr (reads : ReadAsOperand BinaryOp.rankCount value) :
    ReadAsExpr value := by
  intro items rest spelled halts
  rw [Part.read, Part.step, Step.expression]
  refine (reads items rest spelled (halts.mono fun _ ends => ends.toEndsOperand)).bind ?_
  rintro left _ shortLeft ⟨same, rfl⟩
  have none_eq : take? assignment? rest = .ok none :=
    take?_eq_none halts fun token ends => assignment?_eq_none ends.noAssignment
  dsimp only
  rw [none_eq]
  exact ⟨same, rfl⟩

/-- An expression that binds as tightly as any is read everywhere if it is read as an operand. -/
theorem ReadAsOperand.readBack (reads : ReadAsOperand 0 value) : ReadBack value where
  operand rank _ _ := reads.mono (Nat.zero_le rank)
  loop rank _ _ := (reads.mono (Nat.zero_le rank)).upToLoop
  expr := (reads.mono (Nat.zero_le _)).asExpr

theorem readBack_binary {op : BinaryOp} {left right : Expr} (span opSpan : Span)
    (leftBack : ReadBack left) (rightBack : ReadBack right) (leftLevel : left.level ≤ op.rank + 1)
    (rightLevel : right.level ≤ op.rank) : ReadBack (.binary span op opSpan left right) := by
  have inside := op.rank_lt_rankCount
  have upToLoop : ReadUpToLoop op.rank (.binary span op opSpan left right) :=
    readUpToLoop_binary span opSpan (leftBack.loop op.rank leftLevel inside)
      (rightBack.operand op.rank rightLevel inside.le)
  refine ⟨?operand, ?loop, ?expr⟩
  case operand => exact fun rank level_le _ => upToLoop.asOperand.mono level_le
  case loop =>
    intro rank level_le rank_lt
    rcases Nat.lt_or_ge op.rank rank with tighter | looser
    · exact (upToLoop.asOperand.mono tighter).upToLoop
    · have rank_eq : op.rank = rank := Nat.le_antisymm (Nat.le_of_succ_le_succ level_le) looser
      exact rank_eq ▸ upToLoop
  case expr => exact (upToLoop.asOperand.mono inside).asExpr

/-! ### Literals, names and calls -/

theorem take?_cons_eq_none {α : Type} {use : Token → Option α} (unused : use token = none)
    (rest : List LexItem) : take? use (.ok token :: rest) = .ok none := by
  rw [take?, unused]
  rfl

/-- Only a token that is no operator starts a literal, a name, a call or a group. -/
theorem unary_eq_primary (noUnary : unary? token = none) (noStep : step? token = none)
    (rest : List LexItem) :
    Part.unary.read (.ok token :: rest) = Part.primary.read (.ok token :: rest) := by
  rw [Part.read, Part.step, Step.unary, take?_cons_eq_none noUnary, ok_bind]
  simp only [take?_cons_eq_none noStep, ok_bind]
  rfl

theorem readBack_literal {literal : Literal} (grammatical : literal.Grammatical largestLiteral) :
    ReadBack (.literal literal) := by
  refine ReadAsOperand.readBack fun items rest spelled halts => ?_
  obtain ⟨kind, text, span⟩ := literal
  obtain ⟨place, rfl⟩ := spells_last.mp spelled
  rw [Part.read, Part.step, Step.binary]
  cases kind with
  | integer =>
    obtain ⟨nonempty, digits, within⟩ := grammatical
    rw [unary_eq_primary rfl rfl, Part.read, Part.step, Step.primary]
    have accepted : integerLiteral 1 ⟨.integerLiteral, place, text⟩ =
        .ok (.literal ⟨.integer, text, place⟩) :=
      if_pos ((Text.any_int64?_digits_iff nonempty digits .positive).mpr within)
    simp only [next, ok_bind, Lexeme.token, Literal.lexeme, accepted]
    exact ⟨rfl, rfl⟩
  | character =>
    rw [unary_eq_primary rfl rfl, Part.read, Part.step, Step.primary]
    exact ⟨rfl, rfl⟩

theorem readAsOperand_identifier (name : Ident) : ReadAsOperand 0 (.identifier name) := by
  intro items rest spelled halts
  obtain ⟨place, rfl⟩ := spells_last.mp spelled
  have noCall := eat?_eq_none (halts.mono fun _ ends => ends.noCall)
  have noStep : take? step? rest = .ok none :=
    take?_eq_none halts fun token ends => step?_eq_none ends.noStep
  rw [Part.read, Part.step, Step.binary, unary_eq_primary rfl rfl, Part.read, Part.step,
    Step.primary]
  simp only [next, ok_bind, Ident.kind_lexeme, noCall, noStep]
  exact ⟨rfl, rfl⟩

/-- The kinds of tokens that an expression may start with. -/
def startsExpr : TokenKind → Bool
  | .keyword _ => false
  | .punctuator mark => mark = .openParen || mark.unaryOp?.isSome || mark.stepOp?.isSome
  | _ => true

theorem startsExpr_literal (literal : Literal) : startsExpr literal.lexeme.kind = true := by
  obtain ⟨kind, text, span⟩ := literal
  cases kind <;> rfl

theorem startsExpr_unary (op : UnaryOp) : startsExpr (.punctuator op.mark) = true := by
  cases op <;> rfl

theorem startsExpr_step (op : StepOp) : startsExpr (.punctuator op.mark) = true := by
  cases op <;> rfl

/-- An expression starts with a token that an expression may start with. -/
theorem exists_start (value : Expr) {items rest : List LexItem}
    (spelled : Spells value.written items rest) :
    ∃ token after, items = .ok token :: after ∧ startsExpr token.kind = true := by
  match value with
  | .literal constant =>
    obtain ⟨place, after, rfl, -⟩ := spells_plain.mp spelled
    exact ⟨_, after, rfl, startsExpr_literal constant⟩
  | .identifier name =>
    obtain ⟨place, after, rfl, -⟩ := spells_plain.mp spelled
    exact ⟨_, after, rfl, rfl⟩
  | .group _ inner | .call _ callee arguments =>
    obtain ⟨place, after, rfl, -⟩ := spells_plain.mp spelled
    exact ⟨_, after, rfl, rfl⟩
  | .binary _ op _ left right =>
    obtain ⟨middle, leftSpelled, -⟩ := spells_append.mp spelled
    exact exists_start left leftSpelled
  | .unary _ op _ operand =>
    obtain ⟨place, after, rfl, -⟩ := spells_plain.mp spelled
    exact ⟨_, after, rfl, startsExpr_unary op⟩
  | .step _ op .before target =>
    obtain ⟨place, after, rfl, -⟩ := spells_plain.mp spelled
    exact ⟨_, after, rfl, startsExpr_step op⟩
  | .step _ op .after target =>
    obtain ⟨place, after, rfl, -⟩ := spells_plain.mp spelled
    exact ⟨_, after, rfl, rfl⟩
  | .assign _ target op value =>
    obtain ⟨depth, middle, spelled, -⟩ := spells_target spelled
    cases depth <;>
    · obtain ⟨place, after, rfl, -⟩ := spells_plain.mp spelled
      exact ⟨_, after, rfl, rfl⟩

/-- An expression does not start with a token that no expression starts with. -/
theorem halts_of_spelled (spelled : Spells value.written items rest)
    (noStart : startsExpr kind = false) :
    Halts (· ≠ kind) items := by
  obtain ⟨token, after, rfl, starts⟩ := exists_start value spelled
  rintro rfl
  rw [starts] at noStart
  cases noStart

theorem readBack_group {inner : Expr} (span : Span) (back : ReadBack inner) :
    ReadBack (.group span inner) := by
  refine ReadAsOperand.readBack fun items rest spelled _ => ?_
  simp only [Expr.written, spells_plain, spells_append, spells_nil] at spelled
  obtain ⟨opening, afterOpen, rfl, _, innerSpelled, closing, afterClose, rfl, rfl⟩ := spelled
  rw [Part.read, Part.step, Step.binary, unary_eq_primary rfl rfl, Part.read, Part.step,
    Step.primary]
  simp only [next, ok_bind, Lexeme.kind_mark]
  refine (back.expr afterOpen _ innerSpelled endsExpr_closeParen).bind ?_
  rintro read _ shortRead ⟨same, rfl⟩
  refine ⟨?_, rfl⟩
  rw [Expr.erased, Expr.erased, same]

theorem readBack_step (span : Span) (op : StepOp) (fixity : Fixity) (target : Ident) :
    ReadBack (.step span op fixity target) := by
  refine ReadAsOperand.readBack fun items rest spelled _ => ?_
  have isStep (place : Span) : step? ((Lexeme.mark op.mark).token place) = some (op, place) :=
    step?_eq_some_iff.mpr ⟨rfl, rfl⟩
  rw [Part.read, Part.step, Step.binary]
  cases fixity with
  | before =>
    simp only [Expr.written, spells_plain, spells_nil] at spelled
    obtain ⟨place, _, rfl, targetPlace, after, rfl, rfl⟩ := spelled
    have noUnary : unary? ((Lexeme.mark op.mark).token place) = none := by
      cases op <;> rfl
    rw [Part.read, Part.step, Step.unary, take?_cons_eq_none noUnary, take?_eq_some (isStep place)]
    exact ⟨rfl, rfl⟩
  | after =>
    simp only [Expr.written, spells_plain, spells_nil] at spelled
    obtain ⟨targetPlace, _, rfl, place, after, rfl, rfl⟩ := spelled
    have noCall : Halts (· ≠ .punctuator .openParen)
        (.ok ((Lexeme.mark op.mark).token place) :: after) :=
      halts_mark (by cases op <;> decide) place after
    rw [unary_eq_primary rfl rfl, Part.read, Part.step, Step.primary]
    simp only [next, ok_bind, Ident.kind_lexeme]
    rw [eat?_eq_none noCall, ok_bind]
    simp only [take?_eq_some (isStep place), ok_bind]
    exact ⟨rfl, rfl⟩

theorem level_grouped (name : Ident) (depth : Nat) : (name.grouped depth).level = 0 := by
  cases depth <;> rfl

theorem readBack_grouped (name : Ident) (depth : Nat) : ReadBack (name.grouped depth) := by
  induction depth with
  | zero => exact (readAsOperand_identifier name).readBack
  | succ depth ih => exact readBack_group _ ih

/-- What is read as a name in parentheses can be assigned to. -/
theorem assignable_of_grouped {name : Ident} {depth : Nat} {left : Expr}
    (same : left.erased = (name.grouped depth).erased) :
    ∃ found, assignable left = .ok found ∧ found.erased = name.erased := by
  have ungrouped : ∃ found, left.ungrouped = .identifier found ∧ found.erased = name.erased := by
    induction depth generalizing left with
    | zero =>
      cases left with
      | identifier found => exact ⟨found, rfl, Expr.identifier.inj same⟩
      | _ => simp [Ident.grouped, Expr.erased] at same
    | succ depth ih =>
      cases left with
      | group span inner =>
        have inside := ih (Expr.group.inj same).2
        exact inside
      | _ => simp [Ident.grouped, Expr.erased] at same
  obtain ⟨found, ungrouped_eq, sameName⟩ := ungrouped
  exact ⟨found, by rw [assignable, ungrouped_eq], sameName⟩

theorem readBack_assign (span : Span) (target : Ident) (op : Option (ArithmeticOp × Span))
    (back : ReadBack value) :
    ReadBack (.assign span target op value) := by
  have loose : ¬(Expr.assign span target op value).level ≤ BinaryOp.rankCount :=
    Nat.not_succ_le_self _
  refine ⟨?operand, ?loop, ?expr⟩
  case operand => exact fun rank level_le rank_le => absurd (level_le.trans rank_le) loose
  case loop => exact fun rank level_le rank_lt => absurd (level_le.trans rank_lt) loose
  case expr =>
    intro items rest spelled halts
    obtain ⟨depth, middle, targetSpelled, spelled⟩ := spells_target spelled
    obtain ⟨place, afterOp, rfl, valueSpelled⟩ := spells_plain.mp spelled
    have isAssignment : assignment? ((Lexeme.mark (assignmentMark (op.map Prod.fst))).token place) =
        some (op.map Prod.fst, place) := assignment?_eq_some_iff.mpr ⟨rfl, rfl⟩
    have ends : Halts (EndsOperand BinaryOp.rankCount)
        (.ok ((Lexeme.mark (assignmentMark (op.map Prod.fst))).token place) :: afterOp) :=
      endsOperand_assignment _
    have targetReads := ((readBack_grouped target depth).operand 0 (level_grouped target depth).le
      (Nat.zero_le _)).mono (Nat.zero_le BinaryOp.rankCount)
    rw [Part.read, Part.step, Step.expression]
    refine (targetReads _ _ targetSpelled ends).bind ?_
    rintro left _ shortLeft ⟨same, rfl⟩
    obtain ⟨name, named, sameName⟩ := assignable_of_grouped same
    dsimp only
    rw [take?_eq_some isAssignment, ok_bind]
    simp only [named, ok_bind]
    refine (back.expr afterOp rest valueSpelled halts).bind ?_
    rintro read _ shortRead ⟨sameValue, rfl⟩
    refine ⟨?_, rfl⟩
    rw [Expr.erased, Expr.erased, sameValue, sameName]
    cases op <;> rfl

/-! ### Operators before an operand -/

/-- A minus sign takes the integer literal right after it. -/
theorem readBack_negated {literal : Literal} (span opSpan : Span)
    (isInteger : literal.kind = .integer) (grammatical : literal.Grammatical (2 ^ 31)) :
    ReadBack (.unary span .negate opSpan (.literal literal)) := by
  refine ReadAsOperand.readBack fun items rest spelled _ => ?_
  obtain ⟨kind, text, literalSpan⟩ := literal
  cases isInteger
  obtain ⟨nonempty, digits, within⟩ := grammatical
  simp only [Expr.written, spells_plain, spells_nil] at spelled
  obtain ⟨place, _, rfl, literalPlace, after, rfl, rfl⟩ := spelled
  have isUnary : unary? ((Lexeme.mark UnaryOp.negate.mark).token place) = some (.negate, place) :=
    unary?_eq_some_iff.mpr ⟨rfl, rfl⟩
  have taken : negatedLiteral? .negate
      (.ok ((Literal.lexeme ⟨.integer, text, literalSpan⟩).token literalPlace) :: after) =
        .ok (some ⟨⟨.integerLiteral, literalPlace, text⟩, after, by simp⟩) :=
    eat?_eq_some ⟨.integerLiteral, literalPlace, text⟩ after
  have accepted : integerLiteral (-1) ⟨.integerLiteral, literalPlace, text⟩ =
      .ok (.literal ⟨.integer, text, literalPlace⟩) :=
    if_pos ((Text.any_int64?_digits_iff nonempty digits .negative).mpr within)
  rw [Part.read, Part.step, Step.binary, Part.read, Part.step, Step.unary, take?_eq_some isUnary]
  simp only [peek, ok_bind, taken, accepted]
  exact ⟨rfl, rfl⟩

/-- An operand that is no integer literal does not start with one. -/
theorem halts_of_no_literal {operand : Expr} (spelled : Spells operand.written items rest)
    (level_eq : operand.level = 0)
    (noLiteral : ∀ literal, operand = .literal literal → literal.kind ≠ .integer) :
    Halts (· ≠ .integerLiteral) items := by
  match operand with
  | .literal ⟨.integer, text, span⟩ => exact absurd rfl (noLiteral _ rfl)
  | .literal ⟨.character, text, span⟩ | .identifier name | .group _ inner | .call _ callee arguments
  | .unary _ op _ inner | .step _ op .before target | .step _ op .after target =>
    obtain ⟨place, after, rfl, -⟩ := spells_plain.mp spelled
    nofun
  | .binary _ _ _ _ _ | .assign _ _ _ _ => cases level_eq

theorem readBack_unary {op : UnaryOp} {operand : Expr} (span opSpan : Span)
    (back : ReadBack operand) (level_eq : operand.level = 0)
    (noLiteral : op = .negate → ∀ literal, operand = .literal literal → literal.kind ≠ .integer) :
    ReadBack (.unary span op opSpan operand) := by
  refine ReadAsOperand.readBack fun items rest spelled halts => ?_
  simp only [Expr.written, spells_plain] at spelled
  obtain ⟨place, afterOp, rfl, operandSpelled⟩ := spelled
  have isUnary : unary? ((Lexeme.mark op.mark).token place) = some (op, place) :=
    unary?_eq_some_iff.mpr ⟨rfl, rfl⟩
  have notTaken : negatedLiteral? op afterOp = .ok none := by
    cases op with
    | negate => exact eat?_eq_none (halts_of_no_literal operandSpelled level_eq (noLiteral rfl))
    | logicalNot | bitwiseNot => rfl
  have reading := back.operand 0 level_eq.le (Nat.zero_le _) afterOp rest operandSpelled halts
  rw [Part.read, Part.step, Step.binary] at reading
  rw [Part.read, Part.step, Step.binary, Part.read, Part.step, Step.unary, take?_eq_some isUnary]
  simp only [peek, ok_bind, notTaken]
  refine reading.bind ?_
  rintro read _ shortRead ⟨same, rfl⟩
  refine ⟨?_, rfl⟩
  rw [Expr.erased, Expr.erased, same]

/-! ### Calls -/

/-- The tokens of all expressions of a list are read. -/
def AllReadBack : List Expr → Prop
  | [] => True
  | first :: others => ReadBack first ∧ AllReadBack others

/-- The arguments of a call are given back. -/
abbrev GivesAllBack (values : List Expr) (rest : List LexItem) :
    List Expr × Token → List LexItem → Prop :=
  GivesBack (fun read => Expr.allErased read.1) (Expr.allErased values) rest

theorem argumentList_readsBack {first : Expr} {others : List Expr}
    (back : AllReadBack (first :: others)) {items rest : List LexItem}
    (spelled : Spells
      (commaSeparated (Expr.allWritten (first :: others)) ++ [Written.mark .closeParen]) items rest) :
    Reading NoFailure (GivesAllBack (first :: others) rest) (Part.argumentList.read items) := by
  induction others generalizing first items with
  | nil =>
    simp only [Expr.allWritten, commaSeparated_singleton, spells_append, spells_plain,
      spells_nil] at spelled
    obtain ⟨_, firstSpelled, place, after, rfl, rfl⟩ := spelled
    rw [Part.read, Part.step, Step.argumentList]
    refine (back.1.expr items _ firstSpelled endsExpr_closeParen).bind ?_
    rintro read _ shortRead ⟨same, rfl⟩
    have noComma : Halts (· ≠ .punctuator .comma)
        (.ok ((Lexeme.mark .closeParen).token place) :: after) :=
      halts_mark (by decide) place after
    dsimp only
    rw [eat?_eq_none noComma]
    exact ⟨List.cons_eq_cons.mpr ⟨same, rfl⟩, rfl⟩
  | cons second more ih =>
    have nonempty : Expr.allWritten (second :: more) ≠ [] := List.cons_ne_nil _ _
    rw [Expr.allWritten, commaSeparated_cons nonempty, List.append_assoc, List.cons_append,
      spells_append] at spelled
    obtain ⟨_, firstSpelled, spelled⟩ := spelled
    obtain ⟨place, afterComma, rfl, othersSpelled⟩ := spells_plain.mp spelled
    rw [Part.read, Part.step, Step.argumentList]
    refine (back.1.expr items _ firstSpelled endsExpr_comma).bind ?_
    rintro read _ shortRead ⟨same, rfl⟩
    refine (ih back.2 othersSpelled).bind ?_
    rintro ⟨others, close⟩ _ shortOthers ⟨sameOthers, rfl⟩
    exact ⟨List.cons_eq_cons.mpr ⟨same, sameOthers⟩, rfl⟩

/-- What is separated by commas starts with the first of them. -/
theorem exists_spells_first {first : List Written} {others : List (List Written)}
    {more : List Written}
    (spelled : Spells (commaSeparated (first :: others) ++ more) items rest) :
    ∃ middle, Spells first items middle := by
  cases others with
  | nil =>
    rw [commaSeparated_singleton] at spelled
    obtain ⟨middle, firstSpelled, -⟩ := spells_append.mp spelled
    exact ⟨middle, firstSpelled⟩
  | cons second others =>
    rw [commaSeparated_cons (List.cons_ne_nil _ _), List.append_assoc] at spelled
    obtain ⟨middle, firstSpelled, -⟩ := spells_append.mp spelled
    exact ⟨middle, firstSpelled⟩

theorem arguments_readsBack {values : List Expr} (back : AllReadBack values)
    (spelled : Spells (commaSeparated (Expr.allWritten values) ++ [Written.mark .closeParen])
      items rest) :
    Reading NoFailure (GivesAllBack values rest) (Part.arguments.read items) := by
  cases values with
  | nil =>
    obtain ⟨place, rfl⟩ := spells_last.mp spelled
    rw [Part.read, Part.step, Step.arguments, eat?_mark]
    exact ⟨rfl, rfl⟩
  | cons first others =>
    obtain ⟨middle, firstSpelled⟩ := exists_spells_first spelled
    rw [Part.read, Part.step, Step.arguments, eat?_eq_none (halts_of_spelled firstSpelled rfl)]
    exact argumentList_readsBack back spelled

theorem readBack_call {arguments : List Expr} (span : Span) (callee : Ident)
    (back : AllReadBack arguments) : ReadBack (.call span callee arguments) := by
  refine ReadAsOperand.readBack fun items rest spelled _ => ?_
  simp only [Expr.written, spells_plain] at spelled
  obtain ⟨place, _, rfl, opening, afterOpen, rfl, spelled⟩ := spelled
  rw [Part.read, Part.step, Step.binary, unary_eq_primary rfl rfl, Part.read, Part.step,
    Step.primary]
  simp only [next, ok_bind, Ident.kind_lexeme]
  rw [eat?_mark, ok_bind]
  refine (arguments_readsBack back spelled).bind ?_
  rintro ⟨given, close⟩ _ shortGiven ⟨same, rfl⟩
  refine ⟨?_, rfl⟩
  dsimp only at same
  rw [Expr.erased, Expr.erased, same]
  rfl

/-! ### All expressions -/

mutual

/-- The tokens of every grammatical expression are read back. -/
theorem readBack_of_grammatical (value : Expr) (grammatical : value.Grammatical) :
    ReadBack value := by
  match value with
  | .literal constant => exact readBack_literal grammatical
  | .identifier name => exact (readAsOperand_identifier name).readBack
  | .group span inner =>
    rw [Expr.Grammatical, Expr.GrammaticalUpTo] at grammatical
    exact readBack_group span (readBack_of_grammatical inner grammatical)
  | .call span callee arguments =>
    rw [Expr.Grammatical, Expr.GrammaticalUpTo] at grammatical
    exact readBack_call span callee (allReadBack_of_grammatical arguments grammatical.2)
  | .binary span op opSpan left right =>
    rw [Expr.Grammatical, Expr.GrammaticalUpTo] at grammatical
    obtain ⟨⟨leftLevel, leftGrammatical⟩, rightLevel, rightGrammatical⟩ := grammatical
    exact readBack_binary span opSpan (readBack_of_grammatical left leftGrammatical)
      (readBack_of_grammatical right rightGrammatical) leftLevel rightLevel
  | .unary span op opSpan operand =>
    rw [Expr.Grammatical, Expr.GrammaticalUpTo] at grammatical
    obtain ⟨level_eq, operandGrammatical⟩ := grammatical
    by_cases negated : op = .negate ∧ ∃ constant, operand = .literal constant ∧
        constant.kind = .integer
    · obtain ⟨rfl, ⟨_, text, place⟩, rfl, rfl⟩ := negated
      exact readBack_negated span opSpan rfl operandGrammatical
    · have noLiteral (isNegate : op = .negate) (constant : Literal)
          (operand_eq : operand = .literal constant) : constant.kind ≠ .integer :=
        fun isInteger => negated ⟨isNegate, constant, operand_eq, isInteger⟩
      have grammatical : operand.Grammatical := by
        cases op with
        | negate => exact operandGrammatical.of_no_integer (noLiteral rfl) _
        | logicalNot | bitwiseNot => exact operandGrammatical
      exact readBack_unary span opSpan (readBack_of_grammatical operand grammatical) level_eq
        noLiteral
  | .step span op fixity target => exact readBack_step span op fixity target
  | .assign span target op value =>
    rw [Expr.Grammatical, Expr.GrammaticalUpTo] at grammatical
    exact readBack_assign span target op (readBack_of_grammatical value grammatical.2)

theorem allReadBack_of_grammatical (values : List Expr)
    (grammatical : Expr.AllGrammatical values) : AllReadBack values := by
  match values with
  | [] => trivial
  | first :: others =>
    exact ⟨readBack_of_grammatical first grammatical.1,
      allReadBack_of_grammatical others grammatical.2⟩

end

end Parse

end SmallC
