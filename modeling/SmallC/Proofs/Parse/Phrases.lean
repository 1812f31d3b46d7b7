import SmallC.Proofs.Parse.Spelling
import SmallC.Proofs.Tree.Nodes

/-!
# Tokens and phrases that are read

Reading takes items in the order of the text.  What is read is spelt by the items that were taken and
lies after what was read before it: a span from the first token of a phrase to its last one lies in
the text, with the parts of the phrase in it one after another.  The place at which reading fails lies
in the text as well.
-/

namespace SmallC.Parse

open Text Node

variable {text : List Char}

/-! ## Items that are taken -/

/-- A failure is at a place of a text, or at its end. -/
def Misplaced (text : List Char) (failure : ParseFailure) : Prop :=
  ∀ span ∈ failure.span?, span.LiesIn text

/-- Items of a text that are left to be read, from an offset on. -/
structure Ahead (text : List Char) (low : Nat) (items : List LexItem) : Prop where
  placed : Placed text low items
  found : items ⊆ lexItems text

/-- A span was read from items after an offset, and other items are left after it. -/
structure Taken (text : List Char) (low : Nat) (span : Span) (rest : List LexItem) : Prop where
  delimited : span.Delimited text
  after : low ≤ span.start
  ahead : Ahead text span.stop rest

/-- A token was taken off items. -/
structure TakenToken (text : List Char) (low : Nat) (items : List LexItem) (token : Token)
    (rest : List LexItem) : Prop extends Taken text low token.span rest where
  items_eq : items = .ok token :: rest
  found : .ok token ∈ lexItems text

/-- A token of a kind was taken off items. -/
structure TakenKind (text : List Char) (low : Nat) (kind : TokenKind) (items : List LexItem)
    (token : Token) (rest : List LexItem) : Prop extends TakenToken text low items token rest where
  kind_eq : token.kind = kind

/-- Items that do not start with a token of a kind. -/
def Lacks (kind : TokenKind) (items : List LexItem) : Prop :=
  ∀ token rest, items = .ok token :: rest → token.kind ≠ kind

/-- All sound lexemes of a kind are the same. -/
def Fixes (kind : TokenKind) (lexeme : Lexeme) : Prop :=
  ∀ token : Token, token.Sound → token.kind = kind → token.lexeme = lexeme

theorem fixes_mark (punctuator : Punctuator) : Fixes (.punctuator punctuator) (.mark punctuator) :=
  fun _ sound kind_eq => Lexeme.Sound.eq_mark sound kind_eq

theorem fixes_keyword (word : Keyword) : Fixes (.keyword word) (.keyword word) :=
  fun _ sound kind_eq => Lexeme.Sound.eq_keyword sound kind_eq

theorem misplaced_located {span : Span} (lies : span.LiesIn text) (cause : SyntaxCause) :
    Misplaced text (.located span cause) := by
  rintro other ⟨⟩
  exact lies

variable {low : Nat} {items rest : List LexItem} {token : Token}

namespace Taken

variable {lower high : Nat} {first second : Span} {later : List LexItem}

section

variable (taken : Taken text low first rest)
include taken

theorem lies : first.LiesIn text :=
  taken.delimited.lies

theorem le : low ≤ first.stop :=
  taken.after.trans taken.delimited.nonempty.le

theorem mono (le : lower ≤ low) : Taken text lower first rest :=
  ⟨taken.delimited, le.trans taken.after, taken.ahead⟩

/-- From the start of one span to the end of another that was read after it. -/
theorem through (next : Taken text high second later) (reach : first.stop ≤ second.stop) :
    Taken text low (first.through second) later :=
  ⟨taken.delimited.through next.delimited reach, taken.after, next.ahead⟩

end

end Taken

namespace TakenToken

section

variable (taken : TakenToken text low items token rest)
include taken

theorem sound : token.Sound :=
  soundItems_lexItems text token taken.found

theorem spells : Spells [.plain token.lexeme] items rest :=
  taken.items_eq ▸ .plain rfl rest

/-- A token of a kind with only one lexeme spells that lexeme. -/
theorem spells_fixed {kind : TokenKind} {lexeme : Lexeme} (fixes : Fixes kind lexeme)
    (kind_eq : token.kind = kind) : Spells [.plain lexeme] items rest :=
  fixes token taken.sound kind_eq ▸ taken.spells

theorem mark {punctuator : Punctuator} (kind_eq : token.kind = .punctuator punctuator) :
    Spells [.mark punctuator] items rest :=
  taken.spells_fixed (fixes_mark punctuator) kind_eq

theorem keyword {word : Keyword} (kind_eq : token.kind = .keyword word) :
    Spells [.keyword word] items rest :=
  taken.spells_fixed (fixes_keyword word) kind_eq

end

end TakenToken

theorem Ahead.lies {item : LexItem} (ahead : Ahead text low (item :: rest)) :
    (LexItem.span item).LiesIn text :=
  ahead.placed.1

theorem Ahead.head (ahead : Ahead text low (.ok token :: rest)) :
    TakenToken text low (.ok token :: rest) token rest := by
  have found := ahead.found List.mem_cons_self
  obtain ⟨-, after, later⟩ := ahead.placed
  exact ⟨⟨.of_mem_lexItems found, after, later, List.subset_of_cons_subset ahead.found⟩, rfl, found⟩

theorem next_reads (expected : Expected) (ahead : Ahead text low items) :
    Reading (Misplaced text) (TakenToken text low items) (next expected items) := by
  match items with
  | [] => exact nofun
  | .error malformed :: rest => exact misplaced_located ahead.lies _
  | .ok token :: rest => exact ahead.head

theorem peek_reads (expected : Expected) (ahead : Ahead text low items) :
    Outcome (Misplaced text) (fun _ => True) (peek expected items) := by
  match items with
  | [] => exact nofun
  | .error malformed :: rest => exact misplaced_located ahead.lies _
  | .ok token :: rest => trivial

/-- Taking a token that can be used. -/
theorem take?_reads {α : Type} (use : Token → Option α) (ahead : Ahead text low items) :
    Offering (Misplaced text) (∀ token rest, items = .ok token :: rest → use token = none)
      (fun value rest => ∃ token, use token = some value ∧ TakenToken text low items token rest)
      (take? use items) := by
  match items with
  | [] => exact nofun
  | .error malformed :: rest => exact misplaced_located ahead.lies _
  | .ok token :: rest =>
    rw [take?]
    cases used : use token with
    | none =>
      rintro _ _ ⟨⟩
      exact used
    | some value => exact ⟨token, used, ahead.head⟩

theorem eat?_reads (kind : TokenKind) (ahead : Ahead text low items) :
    Offering (Misplaced text) (Lacks kind items) (TakenKind text low kind items)
      (eat? kind items) := by
  refine (take?_reads (ofKind? kind) ahead).mono fun found holds => ?_
  cases found with
  | none =>
    intro token rest items_eq kind_eq
    have unused := holds token rest items_eq
    rw [ofKind?, if_pos kind_eq] at unused
    cases unused
  | some parsed =>
    obtain ⟨token, used, taken⟩ := holds
    obtain ⟨rfl, kind_eq⟩ := ofKind?_eq_some_iff.mp used
    exact ⟨taken, kind_eq⟩

theorem expect_reads (kind : TokenKind) (ahead : Ahead text low items) :
    Reading (Misplaced text) (TakenKind text low kind items) (expect kind items) := by
  unfold expect
  refine (next_reads _ ahead).bind fun token rest short taken => ?_
  dsimp only
  split
  · rename_i kind_eq
    exact ⟨taken, kind_eq⟩
  · exact misplaced_located taken.lies _

/-- An operator was taken, which is told by its punctuator and kept with its span. -/
structure TakenOperator {α : Type} (text : List Char) (low : Nat) (items : List LexItem)
    (use : Token → Option (α × Span)) (markOf : α → Punctuator) (taken : α × Span)
    (rest : List LexItem) : Prop extends Taken text low taken.2 rest where
  spells : Spells [.mark (markOf taken.1)] items rest
  used : ∃ token, use token = some taken

theorem operator_reads {α : Type} {use : Token → Option (α × Span)} {markOf : α → Punctuator}
    (uses : ∀ token op span, use token = some (op, span) →
      token.kind = .punctuator (markOf op) ∧ token.span = span) (ahead : Ahead text low items) :
    Offering (Misplaced text) True (TakenOperator text low items use markOf) (take? use items) := by
  refine (take?_reads use ahead).mono fun found holds => ?_
  cases found with
  | none => trivial
  | some parsed =>
    obtain ⟨token, used, taken⟩ := holds
    obtain ⟨kind_eq, span_eq⟩ := uses token _ _ used
    exact ⟨span_eq ▸ taken.toTaken, taken.mark kind_eq, token, used⟩

/-! ## Phrases -/

/-- A phrase was read from items after an offset, and other items are left after it. -/
structure Phrase {α : Type} (text : List Char) (low : Nat) (nodeOf : α → Node)
    (spanOf : α → Span) (read : α) (rest : List LexItem) : Prop where
  laidOut : (nodeOf read).LaidOut text
  span_eq : (nodeOf read).span = spanOf read
  taken : Taken text low (spanOf read) rest

/-- A phrase was read that is spelt by the items that were taken, and something holds of it. -/
structure Reads {α : Type} (text : List Char) (low : Nat) (nodeOf : α → Node) (spanOf : α → Span)
    (written : α → List Written) (holds : α → Prop) (items : List LexItem) (read : α)
    (rest : List LexItem) : Prop extends Phrase text low nodeOf spanOf read rest where
  spells : Spells (written read) items rest
  holds : holds read

/-- Parts of a phrase were read, and items after them are left. -/
structure Parts {α : Type} (text : List Char) (low : Nat) (nodesOf : α → List Node)
    (written : α → List Written) (holds : α → Prop) (items : List LexItem) (read : α)
    (rest : List LexItem) : Prop where
  fill : ∃ high, Fill text low high (nodesOf read) ∧ Ahead text high rest
  spells : Spells (written read) items rest
  holds : holds read

/-- Parts of a phrase were read with the token that closes it. -/
structure Closed {α : Type} (text : List Char) (low : Nat) (nodesOf : α → List Node)
    (written : α → List Written) (holds : α → Prop) (items : List LexItem) (read : α × Token)
    (rest : List LexItem) : Prop where
  fill : Fill text low read.2.span.stop (nodesOf read.1)
  taken : Taken text low read.2.span rest
  spells : Spells (written read.1) items rest
  holds : holds read.1

section Phrases

variable {α : Type} {nodeOf : α → Node} {spanOf : α → Span} {read : α} {later : List LexItem}
  {high : Nat} {first last : Span} {nodes : List Node}

section

variable (phrase : Phrase text low nodeOf spanOf read rest)
include phrase

/-- A phrase that was read stands before the parts that were read after it. -/
theorem Phrase.cons (fill : Fill text (spanOf read).stop high nodes) :
    Fill text low high (nodeOf read :: nodes) := by
  refine ⟨?_, phrase.laidOut, ?_⟩
  · exact phrase.span_eq ▸ phrase.taken.after
  · exact phrase.span_eq ▸ fill

theorem Phrase.single : Fill text low (spanOf read).stop [nodeOf read] :=
  phrase.cons (le_refl (spanOf read).stop)

/-- A phrase that starts with its first part. -/
theorem Phrase.from_start : Phrase text (spanOf read).start nodeOf spanOf read rest :=
  ⟨phrase.laidOut, phrase.span_eq, phrase.taken.delimited, le_rfl, phrase.taken.ahead⟩

end

/-- A token after parts of a phrase. -/
theorem Taken.extend (taken : Taken text high last rest) (fill : Fill text low high nodes) :
    Fill text low last.stop nodes :=
  fill.mono le_rfl taken.le

section

variable (taken : Taken text low first rest)
include taken

/-- Parts of a phrase after a token. -/
theorem Taken.before (fill : Fill text first.stop high nodes) : Fill text low high nodes :=
  fill.mono taken.le le_rfl

/-- A phrase from the start of what was read first to the end of what was read last. -/
theorem Taken.spanning (closing : Taken text high last later) (reach : first.stop ≤ last.stop)
    (fill : Fill text first.start last.stop nodes) :
    (Node.mk (first.through last) none nodes).LaidOut text ∧
      Taken text low (first.through last) later :=
  have joined := taken.through closing reach
  ⟨⟨joined.delimited, nofun, fill⟩, joined⟩

/-- A phrase whose parts stand after its first token. -/
theorem Taken.enclosing (closing : Taken text high last later)
    (fill : Fill text first.stop last.stop nodes) :
    (Node.mk (first.through last) none nodes).LaidOut text ∧
      Taken text low (first.through last) later :=
  taken.spanning closing fill.le (fill.mono taken.delimited.nonempty.le le_rfl)

end

/-- A phrase that starts with a part of it. -/
theorem Phrase.starting (phrase : Phrase text low nodeOf spanOf read rest)
    (closing : Taken text high last later) (fill : Fill text (spanOf read).stop last.stop nodes) :
    (Node.mk ((spanOf read).through last) none (nodeOf read :: nodes)).LaidOut text ∧
      Taken text low ((spanOf read).through last) later :=
  phrase.taken.spanning closing fill.le (phrase.from_start.cons fill)

end Phrases

theorem TakenToken.laidOut (taken : TakenToken text low items token rest) :
    (Node.mk token.span (some token.text) []).LaidOut text := by
  refine ⟨taken.delimited, ?_, taken.delimited.nonempty.le⟩
  rintro _ ⟨⟩
  exact slice?_of_mem_lexItems taken.found

/-- An expression that is one token has the span of the token, and so has what is written. -/
theorem TakenToken.laidOut_around (taken : TakenToken text low items token rest) :
    (Node.mk token.span none [.mk token.span (some token.text) []]).LaidOut text :=
  ⟨taken.delimited, nofun, le_rfl, taken.laidOut, le_rfl⟩

/-- A name was read. -/
abbrev ReadsIdent (text : List Char) (low : Nat) :
    List LexItem → Ident → List LexItem → Prop :=
  Reads text low Ident.node Ident.span (fun name => [.name name]) Ident.Grammatical

theorem ident_reads (taken : TakenToken text low items token rest)
    (kind_eq : token.kind = .identifier) : ReadsIdent text low items (ident token) rest := by
  have lexeme_eq : (ident token).lexeme = token.lexeme := by
    rw [Ident.lexeme, Token.lexeme, kind_eq]
    rfl
  refine ⟨⟨taken.laidOut, rfl, taken.toTaken⟩, ?_, taken.sound.name kind_eq⟩
  rw [Written.name, lexeme_eq]
  exact taken.spells

theorem identifier_reads (ahead : Ahead text low items) :
    Reading (Misplaced text) (ReadsIdent text low items) (identifier items) := by
  unfold identifier
  refine (expect_reads _ ahead).bind fun token rest short taken => ?_
  exact ident_reads taken.toTakenToken taken.kind_eq

end SmallC.Parse
