import SmallC.Proofs.Parse.Grammatical

/-!
# Progress of the parser

The functions of the parser call each other and themselves.  A call is made with fewer items than are
left, or with the same items and at a lower level, where a level is a place in the order in which the
functions reach the tokens.  So the equations of the parser have exactly one solution, and a function
that is called again while it runs is called with fewer items.
-/

namespace SmallC.Parse

open Text

/-- The number of items of a call, and its level. -/
def Call.measure (made : Call) : ℕ ×ₗ ℕ :=
  toLex (made.items.length, made.part.level)

theorem Below.measure_lt {later made : Call} (below : Below later made) :
    later.measure < made.measure := by
  rw [Call.measure, Call.measure, Prod.Lex.toLex_lt_toLex]
  cases below with
  | fewer less => exact .inl less
  | lower less => exact .inr ⟨rfl, less⟩

theorem wellFounded_below : WellFounded Below :=
  Subrelation.wf Below.measure_lt (InvImage.wf Call.measure wellFounded_lt)

/-- A function that is called again while it runs is called with fewer items. -/
theorem length_lt_of_transGen {α : Type} {slack : Nat} {part : Part α slack}
    {items after : List LexItem} (calls : Relation.TransGen Below ⟨part, after⟩ ⟨part, items⟩) :
    after.length < items.length := by
  have less : Call.measure ⟨part, after⟩ < Call.measure ⟨part, items⟩ :=
    Relation.TransGen.trans_induction_on calls Below.measure_lt fun _ _ => lt_trans
  rw [Call.measure, Call.measure, Prod.Lex.toLex_lt_toLex] at less
  exact less.resolve_right fun same => lt_irrefl _ same.2

/-- Functions that stand for those of the parser. -/
abbrev Readers : Type 1 :=
  ∀ {α : Type} {slack : Nat}, Part α slack → (items : List LexItem) →
    Except ParseFailure (Parsed α (items.length + slack))

/-- The equations of the parser: every function is its step, with calls of the same functions. -/
def Readers.Solve (readers : Readers) : Prop :=
  ∀ {α : Type} {slack : Nat} (part : Part α slack) (items : List LexItem),
    readers part items = part.step items fun other after _ => readers other after

/-- Below a call there is no endless chain of calls, so its answer is determined. -/
theorem Readers.Solve.eq_read {readers : Readers} (solve : readers.Solve) {α : Type} {slack : Nat}
    (part : Part α slack) (items : List LexItem) : readers part items = part.read items := by
  suffices determined : ∀ made : Call, readers made.part made.items = made.part.read made.items from
    determined ⟨part, items⟩
  intro made
  induction made using wellFounded_below.induction with
  | _ made ih =>
    obtain ⟨part, items⟩ := made
    rw [solve part items, Part.read]
    congr 1
    funext β more other after below
    exact ih ⟨other, after⟩ below

/-! ## Progress -/

variable {text : List Char} {low : Nat} {items : List LexItem}

theorem exists_placed_of_append {front : List LexItem} (placed : Placed text low (front ++ items)) :
    ∃ low, Placed text low items := by
  induction front generalizing low with
  | nil => exact ⟨low, placed⟩
  | cons item others ih => exact ih placed.2.2

theorem exists_ahead_of_suffix (isSuffix : items <:+ lexItems text) :
    ∃ low, Ahead text low items := by
  obtain ⟨front, items_eq⟩ := isSuffix
  obtain ⟨low, placed⟩ := exists_placed_of_append (items_eq ▸ placed_lexItems text)
  exact ⟨low, placed, items_eq ▸ List.subset_append_right front items⟩

/-- A function without slack takes tokens off the items. -/
theorem Part.read_takes {α : Type} (part : Part α 0) (ahead : Ahead text low items) :
    Reading (Misplaced text) (fun _ rest => ∃ tokens : List Token, items = tokens.map .ok ++ rest)
      (part.read items) := by
  match part with
  | expression => exact (expression_reads ahead).mono fun _ read => read.spells.exists_taken
  | binary _ => exact (binary_reads ahead).mono fun _ read => read.spells.exists_taken
  | unary => exact (unary_reads ahead).mono fun _ read => read.spells.exists_taken
  | primary => exact (primary_reads ahead).mono fun _ read => read.spells.exists_taken
  | arguments => exact (arguments_reads ahead).mono fun _ read => read.spells.exists_taken
  | argumentList => exact (argumentList_reads ahead).mono fun _ read => read.spells.exists_taken
  | optionalBefore _ _ =>
    exact (optionalBefore_reads ahead).mono fun _ read => read.spells.exists_taken
  | declarators => exact (declarators_reads ahead).mono fun _ read => read.spells.exists_taken
  | condition => exact (condition_reads ahead).mono fun _ read => read.spells.exists_taken
  | forInitializer => exact (forInitializer_reads ahead).mono fun _ read => read.spells.exists_taken
  | forHeader => exact (forHeader_reads ahead).mono fun _ read => read.spells.exists_taken
  | statement => exact (statement_reads ahead).mono fun _ read => read.spells.exists_taken
  | body => exact (body_reads ahead).mono fun _ read => read.spells.exists_taken
  | statements => exact (statements_reads ahead).mono fun _ read => read.spells.exists_taken
  | parameterList => exact (parameterList_reads ahead).mono fun _ read => read.spells.exists_taken
  | parameters => exact (parameters_reads ahead).mono fun _ read => read.spells.exists_taken
  | block => exact (block_reads ahead).mono fun _ read => read.spells.exists_taken
  | functionDef => exact (functionDef_reads ahead).mono fun _ read => read.spells.exists_taken

/-- Reading a text makes progress, and ends. -/
structure Progress (text : List Char) : Prop where
  /-- A function that returns has taken at least one token. -/
  takes : ∀ {α : Type} (part : Part α 0) {items : List LexItem} {parsed : Parsed α items.length},
    items <:+ lexItems text → part.read items = .ok parsed →
      ∃ token tokens, items = (token :: tokens).map .ok ++ parsed.rest
  /-- There is no endless chain of calls. -/
  ends : WellFounded Below
  /-- A function that is called again while it runs is called with fewer items. -/
  again : ∀ {α : Type} {slack : Nat} {part : Part α slack} {items after : List LexItem},
    Relation.TransGen Below ⟨part, after⟩ ⟨part, items⟩ → after.length < items.length
  /-- The functions of the parser are all there is to its equations. -/
  determined : ∀ readers : Readers, readers.Solve ↔
    ∀ {α : Type} {slack : Nat} (part : Part α slack) (items : List LexItem),
      readers part items = part.read items
  /-- In the end there is a tree and no item is left, or there is an error at a place of the text. -/
  parses : Outcome (fun error => error.span.LiesIn text)
    (fun program => (Part.functionDefs.read (lexItems text)).map Parsed.value =
      .ok program.functions ∧ ∃ tokens : List Token, lexItems text = tokens.map .ok)
    (parseProgram text)

/-- Every function of the parser that returns has taken a token, and its calls are made with fewer
items or at a lower level.  So reading any text ends with a tree or an error. -/
theorem parser_makes_progress (text : List Char) : Progress text where
  takes {α} part {items parsed} isSuffix read_eq := by
    obtain ⟨low, ahead⟩ := exists_ahead_of_suffix isSuffix
    obtain ⟨tokens, items_eq⟩ := (part.read_takes ahead).of_eq_ok read_eq
    cases tokens with
    | nil =>
      -- Without a token all items would be left.
      have length_eq : items.length = parsed.rest.length := congrArg List.length items_eq
      exact (parsed.short.ne length_eq.symm).elim
    | cons token tokens => exact ⟨token, tokens, items_eq⟩
  ends := wellFounded_below
  again := length_lt_of_transGen
  determined readers := by
    refine ⟨fun solve => solve.eq_read, fun same α slack part items => ?_⟩
    rw [same part items, Part.read]
    congr 1
    funext β more other after _
    exact (same other after).symm
  parses := by
    have outcome := parseProgram_reads text
    cases parsed : parseProgram text with
    | error error =>
      rw [parsed] at outcome
      exact outcome
    | ok program =>
      rw [parsed] at outcome
      obtain ⟨-, -, -, _, -, spelt⟩ := outcome
      obtain ⟨tokens, items_eq, -⟩ := spelt.exists_tokens
      refine ⟨?_, tokens, items_eq⟩
      unfold parseProgram Parse.functionDefs at parsed
      cases read : Part.functionDefs.read (lexItems text) with
      | error failure => rw [read] at parsed; cases parsed
      | ok functions => rw [read] at parsed; cases parsed; rfl

end SmallC.Parse
