import SmallC.Proofs.Lowering.Addition
import SmallC.Proofs.Tree.Footprint

/-!
# Constructs in progress

A construct creates the blocks that it needs first and enters them one after another, so while its
parts are lowered some of its blocks wait: they are not the current block, they lead nowhere, and no
part touches them.  What is said here of a construct in progress is kept by everything that lowering
does to a graph, so it holds when the construct is finished.
-/

namespace SmallC.Graph

variable {defined : String → Bool} {words others : Prop} {total part rest : Footprint}
  {graph start middle next : Graph} {names more : List String} {id : BlockId} {ids : List BlockId}

/-! ## New blocks -/

theorem newKey_ne {first second : Nat} (different : first ≠ second)
    (firstRoom : graph.blocks.size + first < 2 ^ 32)
    (secondRoom : graph.blocks.size + second < 2 ^ 32) :
    graph.newKey first ≠ graph.newKey second := by
  intro same
  have indices := congrArg TableKey.index same
  rw [newKey, newKey, TableKey.index_ofIndex_of_lt firstRoom,
    TableKey.index_ofIndex_of_lt secondRoom] at indices
  omega

/-- A new block has no exits. -/
theorem get?_createdAll {tags : List String} {block : BasicBlock}
    (found : (graph.createdAll tags).blocks.get? id = some block) :
    graph.blocks.get? id = some block ∨ ∃ label, block = .new label := by
  induction tags generalizing graph with
  | nil => exact .inl found
  | cons tag tags ih =>
    rcases ih found with old | isNew
    · exact get?_created old
    · exact .inr isNew

theorem createdAll_nextOffset (tags : List String) (graph : Graph) :
    (graph.createdAll tags).nextOffset = graph.nextOffset := by
  induction tags generalizing graph with
  | nil => rfl
  | cons tag tags ih => exact ih _

theorem steps_createdAll (tags : List String) (graph : Graph) :
    Steps graph (graph.createdAll tags) := by
  induction tags generalizing graph with
  | nil => exact .refl
  | cons tag tags ih => exact .head (.created tag) (ih _)

/-! ## Constructs -/

/-- New blocks of a construct that are entered later. -/
structure Pending (start : Graph) (ids : List BlockId) (graph : Graph) : Prop where
  nodup : ids.Nodup
  isNew : ∀ id ∈ ids, ¬start.HasBlock id
  waits : ∀ id ∈ ids, graph.Awaits id

/-- A construct in progress: what it takes as a whole, the graph at its start, the names that it has
declared, the blocks that it still enters, in that order, what its other parts take, and the graph
so far.  That it is built by moves and steps depends on its names being words. -/
structure Building (defined : String → Bool) (words : Prop) (total : Footprint) (start : Graph)
    (names : List String) (ids : List BlockId) (rest : Footprint) (graph : Graph) : Prop where
  addition : Addition names start graph
  known : ∀ id ∈ ids, graph.HasBlock id
  pending : graph.blocks.size ≤ 2 ^ 32 → Pending start ids graph
  emitted : graph.blocks.size ≤ 2 ^ 32 → ∀ id ∈ graph.order, id ∈ start.order ∨ ¬start.HasBlock id
  outside : start.WellFormed → words → graph.blocks.size ≤ 2 ^ 32 → ∀ id ∈ ids, id ∉ graph.order
  waiting_eq : graph.waitingCount = start.waitingCount + ids.length
  symbols_eq : graph.symbols.size + rest.symbols = start.symbols.size + total.symbols
  blocks_eq : graph.blocks.size + rest.blocks = start.blocks.size + total.blocks
  offset_eq : graph.nextOffset + 4 * graph.symbols.size = start.nextOffset + 4 * start.symbols.size
  moves : start.WellFormed → words → Moves defined start graph
  steps : start.WellFormed → words → Steps start graph

/-- A construct that has entered all of its blocks. -/
abbrev Built (defined : String → Bool) (words : Prop) (footprint : Footprint) (names : List String)
    (graph next : Graph) : Prop :=
  Building defined words footprint graph names [] 0 next

namespace Building

theorem refl (defined : String → Bool) (words : Prop) (total : Footprint) (graph : Graph) :
    Building defined words total graph [] [] total graph :=
  ⟨.refl graph, by simp, fun _ => ⟨List.nodup_nil, by simp, by simp⟩, fun _ _ old => .inl old,
    by simp, by simp, rfl, rfl, rfl, fun _ _ => .refl, fun _ _ => .refl⟩

section

variable (building : Building defined words total start names ids rest graph)
include building

/-- The parts that are left may be summed up in any order. -/
theorem reorder (further : Footprint) (same : rest = further) :
    Building defined words total start names ids further graph :=
  same ▸ building

/-- Where the names are words, nothing depends on that any more. -/
theorem settled (hold : words) : Building defined True total start names ids rest graph :=
  { building with
    outside := fun formed _ => building.outside formed hold
    moves := fun formed _ => building.moves formed hold
    steps := fun formed _ => building.steps formed hold }

theorem hasBlock_current (known : start.HasBlock start.current) : graph.HasBlock graph.current :=
  building.addition.hasBlock_current known

theorem wellFormed (formed : start.WellFormed) (hold : words) : graph.WellFormed :=
  (building.steps formed hold).wellFormed formed

end

/-- A finished construct has entered all of its blocks. -/
theorem order_length (built : Built defined words total names graph next) :
    next.order.length = graph.order.length + total.blocks := by
  have waiting_eq := built.waiting_eq
  have blocks_eq := built.blocks_eq
  simp only [waitingCount, List.length_nil, Footprint.blocks_zero] at waiting_eq blocks_eq
  omega

/-- A finished construct has taken a place of the frame for each of its symbols. -/
theorem nextOffset_eq (built : Built defined words total names graph next) :
    next.nextOffset = graph.nextOffset - 4 * total.symbols := by
  have offset_eq := built.offset_eq
  have symbols_eq := built.symbols_eq
  rw [Footprint.symbols_zero] at symbols_eq
  omega

/-! ## Earlier and later -/

section Later

variable {earlier : Footprint} {names' : List String} {ids' : List BlockId}
  (late : Building defined words total start names ids rest graph)
  (early : Building defined words total start names' ids' earlier middle)

include late early

/-- Slots stay as a construct goes on. -/
theorem hasSlot_of {slot : Slot} (le : rest.symbols ≤ earlier.symbols)
    (known : middle.HasSlot slot) : graph.HasSlot slot := by
  have late_eq := late.symbols_eq
  have early_eq := early.symbols_eq
  exact Nat.lt_of_lt_of_le known (by omega)

/-- Blocks stay as a construct goes on. -/
theorem hasBlock_of (le : rest.blocks ≤ earlier.blocks) (known : middle.HasBlock id) :
    graph.HasBlock id := by
  have late_eq := late.blocks_eq
  have early_eq := early.blocks_eq
  exact Nat.lt_of_lt_of_le known (by omega)

end Later

/-! ## Parts -/

/-- One part after others. -/
theorem andThen (building : Building defined words total start names ids (part + rest) middle)
    (further : Built defined others part more middle next)
    (sub : start.WellFormed → words → others) :
    Building defined words total start (names ++ more) ids rest next := by
  have size_le := further.addition.size_le
  refine ⟨building.addition.trans further.addition,
    fun id member => further.addition.hasBlock (building.known id member), ?pending, ?emitted,
    ?outside, ?waiting, ?symbols, ?blocks, further.offset_eq.trans building.offset_eq, ?moves,
    ?steps⟩
  case pending =>
    intro room
    obtain ⟨nodup, isNew, waits⟩ := building.pending (Nat.le_trans size_le room)
    exact ⟨nodup, isNew, fun id member => further.addition.waits room (waits id member)⟩
  case emitted =>
    intro room id member
    rcases further.emitted room id member with old | isNew
    · exact building.emitted (Nat.le_trans size_le room) id old
    · exact .inr fun known => isNew (building.addition.hasBlock known)
  case outside =>
    intro formed hold room id member isEmitted
    rcases further.emitted room id isEmitted with old | isNew
    · exact building.outside formed hold (Nat.le_trans size_le room) id member old
    · exact isNew (building.known id member)
  case waiting =>
    rw [further.waiting_eq, building.waiting_eq]
    simp
  case symbols =>
    have first := building.symbols_eq
    have second := further.symbols_eq
    simp only [Footprint.symbols_add, Footprint.symbols_zero] at first second
    omega
  case blocks =>
    have first := building.blocks_eq
    have second := further.blocks_eq
    simp only [Footprint.blocks_add, Footprint.blocks_zero] at first second
    omega
  case moves =>
    intro formed hold
    exact (building.moves formed hold).trans
      (further.moves (building.wellFormed formed hold) (sub formed hold))
  case steps =>
    intro formed hold
    exact (building.steps formed hold).trans
      (further.steps (building.wellFormed formed hold) (sub formed hold))

/-- One step that creates and enters no block. -/
theorem single {count : Nat} (addition : Addition names graph next)
    (order_eq : next.order = graph.order) (size_eq : next.blocks.size = graph.blocks.size)
    (symbols_eq : next.symbols.size = graph.symbols.size + count)
    (offset_eq : next.nextOffset = graph.nextOffset - 4 * count)
    (move : words → Move defined graph next)
    (step : words → Step graph next) :
    Built defined words ⟨count, 0⟩ names graph next :=
  ⟨addition, by simp, fun _ => ⟨List.nodup_nil, by simp, by simp⟩,
    fun _ _ old => .inl (order_eq ▸ old), by simp, by simp [waitingCount, order_eq, size_eq],
    symbols_eq, size_eq, by rw [offset_eq, symbols_eq]; omega, fun _ hold => .single (move hold),
    fun _ hold => .single (step hold)⟩

theorem extended (building : Building defined words total start names ids rest graph)
    {instruction : Instruction}
    (sound : start.WellFormed → words →
      instruction.WellFormed graph.HasSlot graph.HasBlock ∧ instruction.CallsWord defined) :
    Building defined words total start names ids rest (graph.extended instruction) := by
  have added : Built defined (start.WellFormed ∧ words) 0 [] graph (graph.extended instruction) :=
    single (.extended instruction graph) rfl (by simp) rfl (by simp)
      (fun hold => .extended (sound hold.1 hold.2).2) (fun hold => .extended (sound hold.1 hold.2).1)
  have all := (building.reorder (0 + rest) (zero_add rest).symm).andThen added And.intro
  rwa [List.append_nil] at all

section

variable (building : Building defined words total start names ids (.symbol + rest) graph)
include building

theorem withTemporary (can : graph.CanTakeTemporary) :
    Building defined words total start names ids rest graph.withTemporary := by
  have added : Built defined words .symbol [] graph graph.withTemporary :=
    single (.withTemporary can) rfl rfl (by simp) (by simp) (fun _ => .withTemporary)
      (fun _ => .withTemporary can)
  have all := building.andThen added fun _ => id
  rwa [List.append_nil] at all

theorem declared {name : String} (can : graph.CanDeclare name) (word : words → isWord name = true) :
    Building defined words total start (names ++ [name]) ids rest (graph.declared name) := by
  have added : Built defined words .symbol [name] graph (graph.declared name) :=
    single (.declared can) rfl rfl (by simp) (by simp) (fun hold => .declared (word hold))
      (fun hold => .declared (isTemporary_of_isWord (word hold)) can)
  exact building.andThen added fun _ => id

end

/-- What is lowered in a scope of its own leaves no name behind. -/
theorem enclosed
    (built : Built defined words total names (graph.inScopes graph.scopes.enter) next) :
    Built defined words total [] graph (next.inScopes graph.scopes) := by
  refine ⟨built.addition.enclosed, by simp, fun _ => ⟨List.nodup_nil, by simp, by simp⟩,
    built.emitted, by simp, built.waiting_eq, built.symbols_eq, built.blocks_eq, built.offset_eq,
    fun formed hold => ?moves, fun formed hold => ?steps⟩
  case moves =>
    have inside := built.moves (formed.step .opened) hold
    exact .head (.inScopes _) (inside.tail (.inScopes graph.scopes))
  case steps =>
    have inside := built.steps (formed.step .opened) hold
    exact .head .opened (inside.tail (.closed built.addition.scopes.leave?_eq))

/-! ## Blocks -/

/-- A construct creates its blocks. -/
theorem created (tags : List String)
    (building : Building defined words total start names [] (.ofBlocks tags.length + rest) graph)
    (known : start.HasBlock start.current)
    (ids_eq : (List.range tags.length).map graph.newKey = ids)
    (plain : ∀ tag ∈ tags, plainTag tag = true) :
    Building defined words total start names ids rest (graph.createdAll tags) := by
  have isNewKey {id : BlockId} (member : id ∈ ids) :
      ∃ number < tags.length, graph.newKey number = id := by
    simpa [← ids_eq] using member
  have missing (room : (graph.createdAll tags).blocks.size ≤ 2 ^ 32) {number : Nat}
      (isNew : number < tags.length) : ¬graph.HasBlock (graph.newKey number) := by
    rw [size_createdAll] at room
    exact not_hasBlock_newKey (Nat.le_refl _) (by omega)
  have room_before (room : (graph.createdAll tags).blocks.size ≤ 2 ^ 32) :
      graph.blocks.size ≤ 2 ^ 32 := by
    rw [size_createdAll] at room
    omega
  refine ⟨by simpa using building.addition.trans (.createdAll tags graph), ?known, ?pending,
    ?emitted, ?outside, ?waiting, ?symbols, ?blocks, ?offset, ?moves, ?steps⟩
  case known => exact fun id member => hasBlock_createdAll (ids_eq ▸ member)
  case pending =>
    intro room
    refine ⟨?nodup, ?isNew, ?waits⟩
    case nodup =>
      rw [size_createdAll] at room
      rw [← ids_eq]
      refine List.Nodup.map_on (fun number member other otherMember same => ?_) List.nodup_range
      rw [List.mem_range] at member otherMember
      by_contra different
      exact newKey_ne different (by omega) (by omega) same
    case isNew =>
      intro id member old
      obtain ⟨number, isNew, rfl⟩ := isNewKey member
      exact missing room isNew (building.addition.hasBlock old)
    case waits =>
      intro id member
      obtain ⟨number, isNew, rfl⟩ := isNewKey member
      obtain ⟨block, found⟩ := exists_block (hasBlock_newKey graph isNew)
      refine ⟨?_, block, found, ?_⟩
      · rw [createdAll_current]
        exact fun same => missing room isNew (same ▸ building.hasBlock_current known)
      · rcases get?_createdAll found with old | ⟨label, rfl⟩
        · exact absurd (hasBlock_of_get? old) (missing room isNew)
        · exact ⟨rfl, rfl⟩
  case emitted =>
    intro room id member
    rw [createdAll_order] at member
    exact building.emitted (room_before room) id member
  case outside =>
    intro formed hold room id member isEmitted
    obtain ⟨number, isNew, rfl⟩ := isNewKey member
    rw [createdAll_order] at isEmitted
    exact missing room isNew ((building.wellFormed formed hold).order_known _ isEmitted)
  case waiting =>
    rw [waitingCount_createdAll, building.waiting_eq, ← ids_eq]
    simp
  case symbols =>
    have symbols_eq := building.symbols_eq
    rw [createdAll_symbols]
    simpa using symbols_eq
  case blocks =>
    have blocks_eq := building.blocks_eq
    simp only [Footprint.blocks_add, Footprint.blocks_ofBlocks] at blocks_eq
    rw [size_createdAll]
    omega
  case offset => rw [createdAll_nextOffset, createdAll_symbols, building.offset_eq]
  case moves =>
    exact fun formed hold => (building.moves formed hold).trans (Moves.createdAll tags plain)
  case steps =>
    exact fun formed hold => (building.steps formed hold).trans (steps_createdAll tags graph)

section

variable (building : Building defined words total start names (id :: ids) rest graph)
include building

/-- The current block gets its exits, and the next block of the construct becomes the current one. -/
theorem entered {change : BasicBlock → BasicBlock}
    (links : ∀ block : BasicBlock, (change block).instructions = block.instructions)
    (can : graph.CanEnter id)
    (move : Move defined graph ((graph.changed graph.current change).entered id))
    (step : start.WellFormed → words → Step graph (graph.changed graph.current change)) :
    Building defined words total start names ids rest
      ((graph.changed graph.current change).entered id) := by
  have addition := building.addition
  have idKnown : (graph.changed graph.current change).HasBlock id :=
    hasBlock_changed.mpr (building.known id List.mem_cons_self)
  have smaller (room : ((graph.changed graph.current change).entered id).blocks.size ≤ 2 ^ 32) :
      graph.blocks.size ≤ 2 ^ 32 := by
    rwa [entered_blocks, size_changed] at room
  refine ⟨⟨?size, addition.symbols_extended, addition.scopes, ?instructions, ?last,
    fun _ => idKnown, ?keeps⟩, ?known, ?pending, ?emitted, ?outside, ?waiting, building.symbols_eq,
    ?blocks, building.offset_eq, fun formed hold => (building.moves formed hold).tail move, ?steps⟩
  case size =>
    rw [entered_blocks, size_changed]
    exact addition.size_le
  case instructions =>
    intro other block found
    obtain ⟨between, foundBetween, before⟩ := addition.instructions_prefix other block found
    obtain ⟨later, foundLater, after⟩ :=
      instructions_changed (fun block => by rw [links]) foundBetween
    exact ⟨later, foundLater, before.trans after⟩
  case last =>
    intro _
    simp [AtLast]
  case keeps =>
    intro room
    have keeps := addition.keeps (smaller room)
    have pending := building.pending (smaller room)
    refine ⟨?_, .inr (pending.isNew id List.mem_cons_self), fun _ => ?_⟩
    · intro other block different found
      rw [entered_blocks, get?_changed_of_ne (keeps.different different (hasBlock_of_get? found))]
      exact keeps.blocks other block different found
    · exact (pending.waits id List.mem_cons_self).exitless_changed change
  case known =>
    intro other member
    exact hasBlock_changed.mpr (building.known other (List.mem_cons_of_mem _ member))
  case pending =>
    intro room
    obtain ⟨nodup, isNew, waits⟩ := building.pending (smaller room)
    rw [List.nodup_cons] at nodup
    rw [List.forall_mem_cons] at isNew waits
    refine ⟨nodup.2, isNew.2, fun other member => ⟨?_, (waits.2 other member).exitless_changed _⟩⟩
    rintro rfl
    exact nodup.1 member
  case emitted =>
    intro room other member
    rw [entered_order, changed_order, List.mem_append, List.mem_singleton] at member
    rcases member with earlier | rfl
    · exact building.emitted (smaller room) other earlier
    · exact .inr ((building.pending (smaller room)).isNew other List.mem_cons_self)
  case outside =>
    intro formed hold room other member isEmitted
    have nodup := (building.pending (smaller room)).nodup
    rw [entered_order, changed_order, List.mem_append, List.mem_singleton] at isEmitted
    rcases isEmitted with earlier | rfl
    · exact building.outside formed hold (smaller room) other (List.mem_cons_of_mem _ member) earlier
    · exact (List.nodup_cons.mp nodup).1 member
  case waiting =>
    rw [waitingCount_entered, waitingCount_changed, building.waiting_eq, List.length_cons]
    omega
  case blocks =>
    rw [entered_blocks, size_changed]
    exact building.blocks_eq
  case steps =>
    intro formed hold
    exact ((building.steps formed hold).tail (step formed hold)).tail (.entered idKnown can.waits)

theorem jumped {target : BlockId} (known : graph.HasBlock target) (can : graph.CanEnter id) :
    Building defined words total start names ids rest (graph.jumped target id) :=
  building.entered (fun _ => rfl) can (.jumped target can) fun _ _ => .jumping known

theorem branched {test : Slot} {onTrue onFalse : BlockId}
    (testKnown : start.WellFormed → words → graph.HasSlot test)
    (onTrueKnown : graph.HasBlock onTrue) (onFalseKnown : graph.HasBlock onFalse)
    (can : graph.CanEnter id) :
    Building defined words total start names ids rest (graph.branched test onTrue onFalse id) :=
  building.entered (fun _ => rfl) can (.branched test onTrue onFalse can) fun formed hold =>
    .branching (testKnown formed hold) onTrueKnown onFalseKnown

end

end Building

end SmallC.Graph
