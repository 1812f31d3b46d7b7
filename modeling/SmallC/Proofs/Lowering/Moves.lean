import SmallC.Proofs.Lowering.Parameters

/-!
# How lowering builds blocks

Seen from the blocks of a graph alone, lowering makes few kinds of moves: it creates a block under a
tag of letters, adds an instruction to the current block, or gives the current block its exits
and enters another one, both at once.  What holds of the first graph and is kept by every move holds
of the finished graph.
-/

namespace SmallC

/-- Whether a tag has letters and underscores only, so that it can be told from the number before
it. -/
def plainTag (tag : String) : Bool :=
  tag.toList.all Piece.isWordStart

/-- A call, if an instruction is one, has the target of a word. -/
def Instruction.CallsWord (defined : String → Bool) (instruction : Instruction) : Prop :=
  instruction.operation = .call →
    ∃ target name arguments, isWord name = true ∧
      instruction = .call target (Lowering.callTarget defined name) arguments

/-- A symbol that is named by a word or like a temporary. -/
def GraphSymbol.Named (symbol : GraphSymbol) : Prop :=
  isWord symbol.name = true ∨ ∃ number, symbol.name = Graph.temporaryName number

namespace Graph

/-! ## Moves -/

/-- What lowering does to the blocks of a graph in one move. -/
inductive Move (defined : String → Bool) (graph : Graph) : Graph → Prop
  | created {tag : String} : plainTag tag = true → Move defined graph (graph.created tag)
  | extended {instruction : Instruction} :
      instruction.CallsWord defined → Move defined graph (graph.extended instruction)
  | jumped (target : BlockId) {id : BlockId} :
      graph.CanEnter id → Move defined graph (graph.jumped target id)
  | branched (test : Slot) (onTrue onFalse : BlockId) {id : BlockId} :
      graph.CanEnter id → Move defined graph (graph.branched test onTrue onFalse id)
  /-- Something else changes: symbols or scopes. -/
  | beside {next : Graph} : next.name = graph.name → next.blocks = graph.blocks →
      next.order = graph.order → next.current = graph.current →
      (∀ symbol ∈ next.symbols.entries, symbol ∈ graph.symbols.entries ∨ symbol.Named) →
      Move defined graph next

/-- What lowering does to the blocks of a graph in any number of moves. -/
def Moves (defined : String → Bool) : Graph → Graph → Prop :=
  Relation.ReflTransGen (Move defined)

variable {defined : String → Bool} {graph next : Graph} {id : BlockId} {block : BasicBlock}

variable {name : String}

theorem named_of_mem_placed (named : isWord name = true ∨ ∃ number, name = temporaryName number)
    (offset : Int) :
    ∀ symbol ∈ (graph.placed name offset).symbols.entries,
      symbol ∈ graph.symbols.entries ∨ symbol.Named := by
  intro symbol present
  rcases List.mem_append.mp present with earlier | added
  · exact .inl earlier
  · rw [List.mem_singleton.mp added]
    exact .inr named

namespace Move

theorem declared (word : isWord name = true) :
    Move defined graph (graph.declared name) :=
  .beside rfl rfl rfl rfl (named_of_mem_placed (.inl word) graph.nextOffset)

theorem withParameter (word : isWord name = true) (position : Nat) :
    Move defined graph (graph.withParameter name position) := by
  refine .beside ?_ ?_ ?_ ?_ ?_
  · simp
  · simp
  · simp
  · simp
  · simpa using named_of_mem_placed (.inl word) _

theorem withTemporary : Move defined graph graph.withTemporary :=
  .beside rfl rfl rfl rfl (named_of_mem_placed (.inr ⟨_, rfl⟩) graph.nextOffset)

theorem inScopes (scopes : Scopes Slot) : Move defined graph (graph.inScopes scopes) :=
  .beside rfl rfl rfl rfl fun _ present => .inl present

end Move

theorem Moves.createdAll (tags : List String) (plain : ∀ tag ∈ tags, plainTag tag = true) :
    Moves defined graph (graph.createdAll tags) := by
  induction tags generalizing graph with
  | nil => exact .refl
  | cons tag tags ih =>
    rw [List.forall_mem_cons] at plain
    exact .head (.created plain.1) (ih plain.2)

/-! ## Blocks that wait -/

/-- The number of blocks that are created and not yet entered. -/
def waitingCount (graph : Graph) : Int :=
  graph.blocks.size - graph.order.length

@[simp]
theorem waitingCount_createdAll (tags : List String) (graph : Graph) :
    (graph.createdAll tags).waitingCount = graph.waitingCount + tags.length := by
  simp only [waitingCount, size_createdAll, createdAll_order]
  omega

@[simp]
theorem waitingCount_changed (id : BlockId) (change : BasicBlock → BasicBlock) (graph : Graph) :
    (graph.changed id change).waitingCount = graph.waitingCount := by
  simp [waitingCount]

@[simp]
theorem waitingCount_entered (id : BlockId) (graph : Graph) :
    (graph.entered id).waitingCount = graph.waitingCount - 1 := by
  simp only [waitingCount, entered_blocks, entered_order, List.length_append, List.length_singleton]
  omega

theorem hasBlock_of_get? (found : graph.blocks.get? id = some block) : graph.HasBlock id :=
  (List.getElem?_eq_some_iff.mp found).1

/-! ## Exits -/

/-- Every emitted block but the current one has an exit, and no other block has one. -/
structure Linked (graph : Graph) : Prop where
  current_mem : graph.current ∈ graph.order
  exits : ∀ id ∈ graph.order, id ≠ graph.current →
    ∃ block, graph.blocks.get? id = some block ∧ block.exitTrue.isSome = true
  ends : ∀ id block, graph.blocks.get? id = some block →
    (id ∈ graph.order → id = graph.current) → block.exitTrue = none ∧ block.exitFalse = none

/-- Giving the current block an exit and entering another block leaves all others linked. -/
theorem Linked.entered (linked : graph.Linked) {change : BasicBlock → BasicBlock}
    (links : ∀ old, (change old).exitTrue.isSome = true) (can : graph.CanEnter id) :
    ((graph.changed graph.current change).entered id).Linked := by
  refine ⟨by simp, ?exits, ?ends⟩
  case exits =>
    intro other emitted different
    rw [entered_order, List.mem_append, List.mem_singleton] at emitted
    have earlier : other ∈ graph.order := emitted.resolve_right different
    rw [entered_blocks]
    by_cases isCurrent : other = graph.current
    · subst isCurrent
      obtain ⟨old, found⟩ := exists_block can.known
      exact ⟨change old, by rw [get?_changed_self, found, Option.map_some], links old⟩
    · obtain ⟨old, found, hasExit⟩ := linked.exits other earlier isCurrent
      exact ⟨old, by rw [get?_changed_of_ne isCurrent, found], hasExit⟩
  case ends =>
    intro other block found isLast
    -- A block that was emitted before is not the one that is entered now.
    have waits : other ∉ graph.order := by
      intro earlier
      obtain rfl : other = id := isLast (List.mem_append_left _ earlier)
      exact can.waits earlier
    have different : other ≠ graph.current := fun same => waits (same ▸ linked.current_mem)
    rw [entered_blocks, get?_changed_of_ne different] at found
    exact linked.ends other block found fun earlier => absurd earlier waits

theorem Linked.created (linked : graph.Linked) (tag : String) : (graph.created tag).Linked := by
  refine ⟨linked.current_mem, ?exits, ?ends⟩
  case exits =>
    intro other emitted different
    obtain ⟨old, found, hasExit⟩ := linked.exits other emitted different
    exact ⟨old, by rw [get?_created_of_hasBlock (hasBlock_of_get? found), found], hasExit⟩
  case ends =>
    intro other block found isLast
    obtain old | ⟨label, rfl⟩ := get?_created found
    · exact linked.ends other block old isLast
    · exact ⟨rfl, rfl⟩

theorem Linked.extended (linked : graph.Linked) (instruction : Instruction) :
    (graph.extended instruction).Linked := by
  refine ⟨linked.current_mem, ?exits, ?ends⟩
  case exits =>
    intro other emitted different
    obtain ⟨old, found, hasExit⟩ := linked.exits other emitted different
    exact ⟨old, (get?_changed_of_ne different _ _).trans found, hasExit⟩
  case ends =>
    intro other block found isLast
    by_cases isCurrent : other = graph.current
    · subst isCurrent
      rw [get?_changed_self, Option.map_eq_some_iff] at found
      obtain ⟨old, foundOld, rfl⟩ := found
      exact linked.ends _ old foundOld isLast
    · rw [get?_changed_of_ne isCurrent] at found
      exact linked.ends other block found isLast

theorem Move.linked (move : Move defined graph next) (linked : graph.Linked) : next.Linked := by
  cases move with
  | created _ => exact linked.created _
  | extended _ => exact linked.extended _
  | jumped target can | branched test onTrue onFalse can => exact linked.entered (fun _ => rfl) can
  | beside _ blocks_eq order_eq current_eq _ =>
    constructor
    all_goals simp only [blocks_eq, order_eq, current_eq]
    exacts [linked.current_mem, linked.exits, linked.ends]

theorem Moves.linked (moves : Moves defined graph next) (linked : graph.Linked) : next.Linked := by
  induction moves with
  | refl => exact linked
  | tail _ move ih => exact move.linked ih

theorem linked_new (name : String) : (Graph.new name).Linked := by
  refine ⟨List.mem_singleton_self _, ?exits, ?ends⟩
  case exits => exact fun id emitted different => absurd (List.mem_singleton.mp emitted) different
  case ends =>
    intro id block found _
    simp only [Graph.new, Table.get?, List.getElem?_singleton, Option.ite_none_right_eq_some,
      Option.some.injEq] at found
    rw [← found.2]
    exact ⟨rfl, rfl⟩

/-- A graph whose current block has no exits yet. -/
def OpenEnded (graph : Graph) : Prop :=
  ∀ block, graph.blocks.get? graph.current = some block →
    block.exitTrue = none ∧ block.exitFalse = none

theorem Linked.openEnded (linked : graph.Linked) : graph.OpenEnded :=
  fun block found => linked.ends graph.current block found fun _ => rfl

/-! ## The last block -/

/-- The current block is the one that is emitted last. -/
def AtLast (graph : Graph) : Prop :=
  graph.order.getLast? = some graph.current

end Graph

end SmallC
