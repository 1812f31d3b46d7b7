import SmallC.Proofs.Parse.Reading
import SmallC.Proofs.Parse.Tokens
import SmallC.Proofs.Tree.Written

/-!
# Spelling

Items spell parts of a tree when they are tokens whose lexemes are a way to write the parts.  Every
token that a reader takes spells a part of its own, and items that spell one thing after another
spell both together.
-/

namespace SmallC

/-! ## Lexemes one after another -/

variable {lexemes : List Lexeme} {items rest : List LexItem} {part : Written}

theorem spelt_append {first second : List Lexeme} :
    Spelt (first ++ second) items rest ↔
      ∃ middle, Spelt first items middle ∧ Spelt second middle rest := by
  induction first generalizing items with
  | nil => simp [Spelt]
  | cons lexeme others ih =>
    simp only [List.cons_append, Spelt, ih]
    constructor
    · rintro ⟨token, after, items_eq, lexeme_eq, middle, front, back⟩
      exact ⟨middle, ⟨token, after, items_eq, lexeme_eq, front⟩, back⟩
    · rintro ⟨middle, ⟨token, after, items_eq, lexeme_eq, front⟩, back⟩
      exact ⟨token, after, items_eq, lexeme_eq, middle, front, back⟩

/-- Items are the tokens that spell lexemes, and the items that are left. -/
theorem Spelt.exists_taken (spelt : Spelt lexemes items rest) :
    ∃ tokens : List Token, items = tokens.map .ok ++ rest ∧ tokens.map Token.lexeme = lexemes := by
  induction lexemes generalizing items with
  | nil => exact ⟨[], spelt, rfl⟩
  | cons lexeme others ih =>
    obtain ⟨token, after, rfl, rfl, others_spelt⟩ := spelt
    obtain ⟨tokens, rfl, rfl⟩ := ih others_spelt
    exact ⟨token :: tokens, rfl, rfl⟩

/-- Items that are all spelt are all tokens. -/
theorem Spelt.exists_tokens (spelt : Spelt lexemes items []) :
    ∃ tokens : List Token, items = tokens.map .ok ∧ tokens.map Token.lexeme = lexemes := by
  simpa using spelt.exists_taken

theorem writes_append {first second : List Written} :
    Writes (first ++ second) lexemes ↔
      ∃ front back, lexemes = front ++ back ∧ Writes first front ∧ Writes second back := by
  induction first generalizing lexemes with
  | nil => simp [Writes]
  | cons part others ih =>
    simp only [List.cons_append, Writes, ih]
    constructor
    · rintro ⟨head, _, rfl, admits, front, back, rfl, writes, written⟩
      exact ⟨head ++ front, back, by simp, ⟨head, front, rfl, admits, writes⟩, written⟩
    · rintro ⟨_, back, rfl, ⟨head, front, rfl, admits, writes⟩, written⟩
      exact ⟨head, front ++ back, by simp, admits, front, back, rfl, writes, written⟩

theorem writes_singleton : Writes [part] lexemes ↔ part.Admits lexemes := by
  simp [Writes]

/-- Parts without a choice are written in one way. -/
theorem eq_of_writes_plain {others : List Lexeme}
    (writes : Writes (lexemes.map Written.plain) others) : others = lexemes := by
  induction lexemes generalizing others with
  | nil => exact writes
  | cons lexeme more ih =>
    obtain ⟨_, back, rfl, rfl, later⟩ := writes
    rw [ih later]
    rfl

/-! ## Parts one after another -/

/-- Items up to a rest spell parts. -/
def Spells (parts : List Written) (items rest : List LexItem) : Prop :=
  ∃ lexemes, Writes parts lexemes ∧ Spelt lexemes items rest

namespace Spells

variable {first second : List Written} {items middle rest : List LexItem}

theorem nil (items : List LexItem) : Spells [] items items :=
  ⟨[], rfl, rfl⟩

theorem append (front : Spells first items middle) (back : Spells second middle rest) :
    Spells (first ++ second) items rest := by
  obtain ⟨frontLexemes, frontWrites, frontSpelt⟩ := front
  obtain ⟨backLexemes, backWrites, backSpelt⟩ := back
  exact ⟨frontLexemes ++ backLexemes,
    writes_append.mpr ⟨_, _, rfl, frontWrites, backWrites⟩,
    spelt_append.mpr ⟨middle, frontSpelt, backSpelt⟩⟩

theorem cons (front : Spells [part] items middle) (back : Spells second middle rest) :
    Spells (part :: second) items rest :=
  front.append back

theorem plain {token : Token} {lexeme : Lexeme} (lexeme_eq : token.lexeme = lexeme)
    (rest : List LexItem) : Spells [.plain lexeme] (.ok token :: rest) rest :=
  ⟨[lexeme], writes_singleton.mpr rfl, token, rest, rfl, lexeme_eq, rfl⟩

/-- Items that spell lexemes in the one way to write them spell any part that admits them. -/
theorem admitted {lexemes : List Lexeme} (admits : part.Admits lexemes)
    (spells : Spells (lexemes.map .plain) items rest) : Spells [part] items rest := by
  obtain ⟨others, writes, spelt⟩ := spells
  cases eq_of_writes_plain writes
  exact ⟨lexemes, writes_singleton.mpr admits, spelt⟩

theorem exists_taken (spells : Spells first items rest) :
    ∃ tokens : List Token, items = tokens.map .ok ++ rest := by
  obtain ⟨_, -, spelt⟩ := spells
  obtain ⟨tokens, items_eq, -⟩ := spelt.exists_taken
  exact ⟨tokens, items_eq⟩

end Spells

/-! ## Operators -/

namespace Parse

variable {token : Token} {span : Span}

theorem mark?_eq_some_iff {punctuator : Punctuator} :
    mark? token = some punctuator ↔ token.kind = .punctuator punctuator := by
  unfold mark?
  split <;> simp_all

theorem binaryOfRank?_eq_some_iff {rank : Nat} {op : BinaryOp} :
    binaryOfRank? rank token = some (op, span) ↔
      token.kind = .punctuator op.mark ∧ op.rank = rank ∧ token.span = span := by
  simp only [binaryOfRank?, Option.bind_eq_bind, Option.bind_eq_some_iff, mark?_eq_some_iff,
    Punctuator.binaryOp?_eq_some_iff]
  constructor
  · rintro ⟨_, kind_eq, other, rfl, checked⟩
    split at checked
    · rename_i rank_eq
      cases checked
      exact ⟨kind_eq, rank_eq, rfl⟩
    · contradiction
  · rintro ⟨kind_eq, rfl, rfl⟩
    exact ⟨_, kind_eq, op, rfl, if_pos rfl⟩

/-- A token as an operator that is told by its punctuator. -/
theorem operator_eq_some_iff {α : Type} {opOf : Punctuator → Option α} {markOf : α → Punctuator}
    (tells : ∀ {mark op}, opOf mark = some op ↔ mark = markOf op) {op : α} :
    (do let op ← opOf (← mark? token); return (op, token.span)) = some (op, span) ↔
      token.kind = .punctuator (markOf op) ∧ token.span = span := by
  simp only [Option.bind_eq_bind, Option.bind_eq_some_iff, mark?_eq_some_iff, tells,
    Option.pure_def, Option.some.injEq, Prod.mk.injEq]
  constructor
  · rintro ⟨_, kind_eq, _, rfl, rfl, span_eq⟩
    exact ⟨kind_eq, span_eq⟩
  · rintro ⟨kind_eq, span_eq⟩
    exact ⟨_, kind_eq, op, rfl, rfl, span_eq⟩

theorem assignment?_eq_some_iff {op : Option ArithmeticOp} :
    assignment? token = some (op, span) ↔
      token.kind = .punctuator (assignmentMark op) ∧ token.span = span :=
  operator_eq_some_iff Punctuator.assignment?_eq_some_iff

theorem unary?_eq_some_iff {op : UnaryOp} :
    unary? token = some (op, span) ↔ token.kind = .punctuator op.mark ∧ token.span = span :=
  operator_eq_some_iff Punctuator.unaryOp?_eq_some_iff

theorem step?_eq_some_iff {op : StepOp} :
    step? token = some (op, span) ↔ token.kind = .punctuator op.mark ∧ token.span = span :=
  operator_eq_some_iff Punctuator.stepOp?_eq_some_iff

/-! ## Headers of `for` statements -/

/-- The header of a `for` statement as it is written. -/
def ForHeader.written (header : ForHeader) : List Written :=
  .mark .openParen ::
    (ForInitializer.written header.initializer ++
      ((Expr.optionWritten header.test ++ [.mark .semicolon]) ++
        (Expr.optionWritten header.after ++ [.mark .closeParen])))

/-- The parts of the header of a `for` statement are grammatical. -/
structure ForHeader.Grammatical (header : ForHeader) : Prop where
  initializer : ∀ first ∈ header.initializer, first.Grammatical
  test : ∀ value ∈ header.test, value.Grammatical
  after : ∀ value ∈ header.after, value.Grammatical

theorem written_forLoop (span : Span) (header : ForHeader) (body : Stmt) :
    (Stmt.forLoop span header.initializer header.test header.after body).written =
      .keyword .forWord :: (header.written ++ body.written) := by
  simp [ForHeader.written, Stmt.written]

end Parse

end SmallC
