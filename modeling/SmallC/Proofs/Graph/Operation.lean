import SmallC.Graph.Lowering
import SmallC.Proofs.Result

/-!
# When operations on graphs succeed

Every operation on a graph either fails or gives one particular graph.  The graphs that come out are
named here, and each operation gets the exact condition under which it gives that graph.  Nothing
else about the operations is used later.
-/

namespace SmallC

namespace Graph

/-- Whether a graph has a symbol under a slot. -/
def HasSlot (graph : Graph) (slot : Slot) : Prop :=
  TableKey.index slot < graph.symbols.size

/-- Whether a graph has a block under a key. -/
def HasBlock (graph : Graph) (id : BlockId) : Prop :=
  TableKey.index id < graph.blocks.size

/-! ## Results -/

/-- The graph with one more block. -/
@[simps]
def created (tag : String) (graph : Graph) : Graph :=
  { graph with
    blocks := graph.blocks.push (.new (blockLabel graph.name graph.blocks.size tag)) }

/-- The graph with one more block for each tag. -/
def createdAll : List String → Graph → Graph
  | [], graph => graph
  | tag :: tags, graph => createdAll tags (graph.created tag)

/-- The key of the block that is created after a number of others. -/
def newKey (graph : Graph) (number : Nat) : BlockId :=
  TableKey.ofIndex (graph.blocks.size + number)

/-- The graph in which one block is changed. -/
@[simps]
def changed (id : BlockId) (change : BasicBlock → BasicBlock) (graph : Graph) : Graph :=
  { graph with blocks := ⟨graph.blocks.entries.modify (TableKey.index id) change⟩ }

/-- The graph in which the current block has one more instruction. -/
abbrev extended (instruction : Instruction) (graph : Graph) : Graph :=
  graph.changed graph.current fun block =>
    { block with instructions := block.instructions ++ [instruction] }

/-- The graph in which the current block goes on to another one. -/
abbrev jumping (target : BlockId) (graph : Graph) : Graph :=
  graph.changed graph.current fun block =>
    { block with exitTrue := some target, exitFalse := none, test := none }

/-- The graph in which the current block goes on to one of two blocks. -/
abbrev branching (test : Slot) (onTrue onFalse : BlockId) (graph : Graph) : Graph :=
  graph.changed graph.current fun block =>
    { block with exitTrue := some onTrue, exitFalse := some onFalse, test := some test }

/-- The graph in which a block is the last emitted one and the current one. -/
@[simps]
def entered (id : BlockId) (graph : Graph) : Graph :=
  { graph with order := graph.order ++ [id], current := id }

/-- The graph in which the current block goes on to another one, and a block is entered. -/
abbrev jumped (target id : BlockId) (graph : Graph) : Graph :=
  (graph.jumping target).entered id

/-- The graph in which the current block goes on to one of two blocks, and a block is entered. -/
abbrev branched (test : Slot) (onTrue onFalse id : BlockId) (graph : Graph) : Graph :=
  (graph.branching test onTrue onFalse).entered id

/-- Whether the current block can get its exits before another block is entered. -/
structure CanEnter (id : BlockId) (graph : Graph) : Prop where
  known : graph.HasBlock graph.current
  waits : id ∉ graph.order

/-- The graph with a symbol at an offset that is in scope under its name. -/
@[simps]
def placed (name : String) (offset : Int) (graph : Graph) : Graph :=
  { graph with
    symbols := graph.symbols.push ⟨name, .int, offset⟩
    scopes := graph.scopes.declare name graph.symbols.nextKey }

/-- The graph with a variable at the next place of the frame. -/
@[simps]
def declared (name : String) (graph : Graph) : Graph :=
  { graph.placed name graph.nextOffset with nextOffset := graph.nextOffset - 4 }

/-- The graph with a new temporary. -/
@[simps]
def withTemporary (graph : Graph) : Graph :=
  { graph.placed (temporaryName graph.nextTemporary) graph.nextOffset with
    nextOffset := graph.nextOffset - 4
    nextTemporary := graph.nextTemporary + 1 }

/-- The graph with other scopes. -/
@[simps]
def inScopes (scopes : Scopes Slot) (graph : Graph) : Graph :=
  { graph with scopes := scopes }

/-- Whether a name can be declared in the innermost scope of a graph and has a place in its
frame. -/
structure CanDeclare (name : String) (graph : Graph) : Prop where
  free : graph.scopes.declaresHere name = false
  visible : graph.scopes.hidesParameter name = false
  fits : Frame.fits (graph.nextOffset - 4) = true

/-- Whether a graph has room for a new temporary. -/
def CanTakeTemporary (graph : Graph) : Prop :=
  graph.CanDeclare (temporaryName graph.nextTemporary)

/-! ## Blocks -/

variable {graph next : Graph} {id other : BlockId} {change : BasicBlock → BasicBlock} {slot : Slot}
  {name : String}

theorem block_eq_ok_iff {block : BasicBlock} :
    graph.block id = .ok block ↔ graph.blocks.get? id = some block := by
  unfold Graph.block Fault.ofTable
  rw [← Table.get_eq_ok_iff]
  cases graph.blocks.get id <;> simp [Except.mapError]

theorem exists_block (known : graph.HasBlock id) : ∃ block, graph.blocks.get? id = some block := by
  rw [← Option.isSome_iff_exists, ← Option.ne_none_iff_isSome, ne_eq, Table.get?_eq_none_iff]
  exact Nat.not_le.mpr known

theorem createBlock_eq (tag : String) (graph : Graph) :
    graph.createBlock tag = (graph.newKey 0, graph.created tag) :=
  rfl

@[simp]
theorem newKey_created (tag : String) (graph : Graph) (number : Nat) :
    (graph.created tag).newKey number = graph.newKey (number + 1) := by
  simp [newKey, Nat.add_assoc, Nat.add_comm 1]

section

variable (tags : List String) (graph : Graph)

@[simp]
theorem createdAll_current : (graph.createdAll tags).current = graph.current := by
  induction tags generalizing graph with
  | nil => rfl
  | cons tag tags ih => exact ih _

@[simp]
theorem createdAll_order : (graph.createdAll tags).order = graph.order := by
  induction tags generalizing graph with
  | nil => rfl
  | cons tag tags ih => exact ih _

@[simp]
theorem createdAll_symbols : (graph.createdAll tags).symbols = graph.symbols := by
  induction tags generalizing graph with
  | nil => rfl
  | cons tag tags ih => exact ih _

@[simp]
theorem createdAll_scopes : (graph.createdAll tags).scopes = graph.scopes := by
  induction tags generalizing graph with
  | nil => rfl
  | cons tag tags ih => exact ih _

@[simp]
theorem size_createdAll :
    (graph.createdAll tags).blocks.size = graph.blocks.size + tags.length := by
  induction tags generalizing graph with
  | nil => rfl
  | cons tag tags ih =>
    rw [createdAll, ih, created_blocks, Table.size_push, List.length_cons]
    omega

end

/-- A new block gets a key that the graph then has, even when keys start again from zero. -/
theorem hasBlock_newKey (graph : Graph) {tags : List String} {number : Nat}
    (isNew : number < tags.length) : (graph.createdAll tags).HasBlock (graph.newKey number) := by
  have reduced := Nat.mod_le (graph.blocks.size + number) (2 ^ 32)
  rw [HasBlock, newKey, TableKey.index_ofIndex, size_createdAll]
  omega

theorem hasBlock_createdAll {graph : Graph} {tags : List String}
    (member : id ∈ (List.range tags.length).map graph.newKey) :
    (graph.createdAll tags).HasBlock id := by
  obtain ⟨number, isNew, rfl⟩ := List.mem_map.mp member
  exact hasBlock_newKey graph (List.mem_range.mp isNew)

/-- As long as keys do not run out, the key of a new block is not a key of the graph yet. -/
theorem not_hasBlock_newKey {middle : Graph} (later : graph.blocks.size ≤ middle.blocks.size)
    {number : Nat} (room : middle.blocks.size + number < 2 ^ 32) :
    ¬graph.HasBlock (middle.newKey number) := by
  rw [HasBlock, newKey, TableKey.index_ofIndex_of_lt room]
  omega

@[simp]
theorem size_changed (id : BlockId) (change : BasicBlock → BasicBlock) (graph : Graph) :
    (graph.changed id change).blocks.size = graph.blocks.size := by
  simp [Table.size]

@[simp]
theorem hasBlock_changed : (graph.changed id change).HasBlock other ↔ graph.HasBlock other := by
  simp [HasBlock]

theorem modifyBlock_eq_ok_iff :
    graph.modifyBlock id change = .ok next ↔ graph.HasBlock id ∧ next = graph.changed id change := by
  unfold Graph.modifyBlock Fault.ofTable Table.modify HasBlock
  by_cases known : TableKey.index id < graph.blocks.size
  · simp [known, Except.mapError, changed, eq_comm]
  · simp [known, Except.mapError]

theorem add_eq_ok_iff {instruction : Instruction} :
    graph.add instruction = .ok next ↔
      graph.HasBlock graph.current ∧ next = graph.extended instruction :=
  modifyBlock_eq_ok_iff

theorem enterBlock_eq_ok_iff :
    Lowering.enterBlock id graph = .ok next ↔ id ∉ graph.order ∧ next = graph.entered id := by
  unfold Lowering.enterBlock Graph.appendBlock
  by_cases emitted : id ∈ graph.order
  · simp [emitted]
  · simp [emitted, entered, eq_comm]

variable {α : Type} {rest : Graph → Except Fault α} {result : α}

theorem add_bind_eq_ok_iff {instruction : Instruction} :
    (graph.add instruction >>= rest) = .ok result ↔
      graph.HasBlock graph.current ∧ rest (graph.extended instruction) = .ok result := by
  simp only [bind_eq_ok_iff, add_eq_ok_iff, and_assoc, exists_and_left, exists_eq_left]

/-- The exits of the current block, the block after it, and what follows. -/
theorem modifyBlock_enterBlock_bind_eq_ok_iff :
    (graph.modifyBlock graph.current change >>= fun linked =>
        Lowering.enterBlock id linked >>= rest) = .ok result ↔
      graph.CanEnter id ∧ rest ((graph.changed graph.current change).entered id) = .ok result := by
  simp only [bind_eq_ok_iff, modifyBlock_eq_ok_iff, enterBlock_eq_ok_iff]
  constructor
  · rintro ⟨_, ⟨known, rfl⟩, _, ⟨waits, rfl⟩, done⟩
    exact ⟨⟨known, waits⟩, done⟩
  · rintro ⟨⟨known, waits⟩, done⟩
    exact ⟨_, ⟨known, rfl⟩, _, ⟨waits, rfl⟩, done⟩

theorem jumpTo_enterBlock_bind_eq_ok_iff {target : BlockId} :
    (Lowering.jumpTo target graph >>= fun linked => Lowering.enterBlock id linked >>= rest) =
        .ok result ↔
      graph.CanEnter id ∧ rest (graph.jumped target id) = .ok result :=
  modifyBlock_enterBlock_bind_eq_ok_iff

theorem branchTo_enterBlock_bind_eq_ok_iff {test : Slot} {onTrue onFalse : BlockId} :
    (Lowering.branchTo test onTrue onFalse graph >>= fun linked =>
        Lowering.enterBlock id linked >>= rest) = .ok result ↔
      graph.CanEnter id ∧ rest (graph.branched test onTrue onFalse id) = .ok result :=
  modifyBlock_enterBlock_bind_eq_ok_iff

/-- The exits of the current block and the block after it. -/
theorem modifyBlock_enterBlock_eq_ok_iff :
    (graph.modifyBlock graph.current change >>= Lowering.enterBlock id) = .ok next ↔
      graph.CanEnter id ∧ next = (graph.changed graph.current change).entered id := by
  simp only [bind_eq_ok_iff, modifyBlock_eq_ok_iff, enterBlock_eq_ok_iff]
  constructor
  · rintro ⟨_, ⟨known, rfl⟩, waits, rfl⟩
    exact ⟨⟨known, waits⟩, rfl⟩
  · rintro ⟨⟨known, waits⟩, rfl⟩
    exact ⟨_, ⟨known, rfl⟩, waits, rfl⟩

theorem jumpTo_enterBlock_eq_ok_iff {target : BlockId} :
    (Lowering.jumpTo target graph >>= Lowering.enterBlock id) = .ok next ↔
      graph.CanEnter id ∧ next = graph.jumped target id :=
  modifyBlock_enterBlock_eq_ok_iff

theorem branchTo_enterBlock_eq_ok_iff {test : Slot} {onTrue onFalse : BlockId} :
    (Lowering.branchTo test onTrue onFalse graph >>= Lowering.enterBlock id) = .ok next ↔
      graph.CanEnter id ∧ next = graph.branched test onTrue onFalse id :=
  modifyBlock_enterBlock_eq_ok_iff

/-! ## Scopes and symbols -/

theorem symbol_eq_ok_iff {symbol : GraphSymbol} :
    graph.symbol slot = .ok symbol ↔ graph.symbols.get? slot = some symbol := by
  unfold Graph.symbol Fault.ofTable
  rw [← Table.get_eq_ok_iff]
  cases graph.symbols.get slot <;> simp [Except.mapError]

theorem exists_symbol (known : graph.HasSlot slot) :
    ∃ symbol, graph.symbols.get? slot = some symbol := by
  rw [← Option.isSome_iff_exists, ← Option.ne_none_iff_isSome, ne_eq, Table.get?_eq_none_iff]
  exact Nat.not_le.mpr known

theorem resolve_eq_ok_iff :
    Lowering.resolve name graph = .ok slot ↔ graph.scopes.lookup? name = some slot := by
  unfold Lowering.resolve Graph.lookup?
  cases graph.scopes.lookup? name <;> simp

theorem leaveScope_eq_ok_iff :
    graph.leaveScope = .ok next ↔
      ∃ outer, graph.scopes.leave? = some outer ∧ next = graph.inScopes outer := by
  unfold Graph.leaveScope
  cases graph.scopes.leave? <;> simp [inScopes, eq_comm]

theorem enterScope_eq (graph : Graph) : graph.enterScope = graph.inScopes graph.scopes.enter :=
  rfl

theorem accepted_eq_ok_iff {declaration : Declaration} :
    declaration.accepted = .ok (slot, next) ↔
      declaration.outcome = .ok slot ∧ declaration.graph = next := by
  obtain ⟨_ | found, after⟩ := declaration <;> simp [Declaration.accepted]

/-- A declaration with a further step is accepted when the declaration is and the step succeeds. -/
theorem accepted_andThen_eq_ok_iff {declaration : Declaration}
    {further : Slot → Graph → Except Fault Graph} :
    (declaration.andThen further).accepted = .ok (slot, next) ↔
      ∃ middle, declaration.accepted = .ok (slot, middle) ∧ further slot middle = .ok next := by
  obtain ⟨fault | found, after⟩ := declaration
  · simp [Declaration.andThen, Declaration.accepted]
  · simp only [Declaration.andThen, accepted_eq_ok_iff, Except.ok.injEq]
    constructor
    · intro accepted
      cases outcome : further found after with
      | error fault => simp [outcome, Declaration.refused] at accepted
      | ok last =>
        simp only [outcome, Except.ok.injEq] at accepted
        obtain ⟨rfl, rfl⟩ := accepted
        exact ⟨after, ⟨rfl, rfl⟩, outcome⟩
    · rintro ⟨middle, ⟨rfl, rfl⟩, outcome⟩
      simp [outcome]

theorem insertSymbol_eq_ok_iff {offset : Int} :
    (graph.insertSymbol name .int offset).accepted = .ok (slot, next) ↔
      (graph.scopes.declaresHere name = false ∧ graph.scopes.hidesParameter name = false) ∧
        slot = graph.symbols.nextKey ∧ next = graph.placed name offset := by
  unfold Graph.insertSymbol
  cases free : graph.scopes.declaresHere name with
  | true => simp [Declaration.accepted, Declaration.refused]
  | false =>
    cases visible : graph.scopes.hidesParameter name with
    | true => simp [Declaration.accepted, Declaration.refused]
    | false => simp [Declaration.accepted, placed, eq_comm]

theorem checked_eq_ok_iff {offset result : Int} :
    Frame.checked offset = .ok result ↔ Frame.fits offset = true ∧ result = offset := by
  unfold Frame.checked
  split
  · rename_i fits
    constructor
    · rintro ⟨⟩
      exact ⟨fits, rfl⟩
    · rintro ⟨-, rfl⟩
      rfl
  · rename_i tight
    exact ⟨nofun, fun ok => absurd ok.1 tight⟩

theorem reserve_eq_ok_iff :
    graph.reserve .int = .ok next ↔
      Frame.fits (graph.nextOffset - 4) = true ∧
        next = { graph with nextOffset := graph.nextOffset - 4 } := by
  simp only [Graph.reserve, TypeName.size, ok_bind, bind_eq_ok_iff, checked_eq_ok_iff, pure_eq_ok,
    Except.ok.injEq]
  constructor
  · rintro ⟨_, ⟨fits, rfl⟩, rfl⟩
    exact ⟨fits, rfl⟩
  · rintro ⟨fits, rfl⟩
    exact ⟨_, ⟨fits, rfl⟩, rfl⟩

theorem declareVariable_eq_ok_iff :
    (graph.declareVariable name .int).accepted = .ok (slot, next) ↔
      graph.CanDeclare name ∧ slot = graph.symbols.nextKey ∧ next = graph.declared name := by
  simp only [Graph.declareVariable, accepted_andThen_eq_ok_iff, insertSymbol_eq_ok_iff,
    reserve_eq_ok_iff]
  constructor
  · rintro ⟨middle, ⟨⟨free, visible⟩, rfl, rfl⟩, fits, rfl⟩
    exact ⟨⟨free, visible, fits⟩, rfl, rfl⟩
  · rintro ⟨⟨free, visible, fits⟩, rfl, rfl⟩
    exact ⟨graph.placed name graph.nextOffset, ⟨⟨free, visible⟩, rfl, rfl⟩, fits, rfl⟩

theorem temporary_eq_ok_iff :
    Lowering.temporary graph = .ok (slot, next) ↔
      graph.CanTakeTemporary ∧ slot = graph.symbols.nextKey ∧ next = graph.withTemporary := by
  unfold Lowering.temporary Graph.newTemporary CanTakeTemporary
  rw [declareVariable_eq_ok_iff]
  constructor
  · rintro ⟨⟨free, visible, fits⟩, rest⟩
    exact ⟨⟨free, visible, fits⟩, rest⟩
  · rintro ⟨⟨free, visible, fits⟩, rest⟩
    exact ⟨⟨free, visible, fits⟩, rest⟩

/-- A new temporary is what its name stands for. -/
theorem lookup?_of_temporary (taken : Lowering.temporary graph = .ok (slot, next)) :
    next.lookup? (temporaryName graph.nextTemporary) = some slot := by
  obtain ⟨_, rfl, rfl⟩ := temporary_eq_ok_iff.mp taken
  exact Scopes.lookup?_declare_self _ _ _

theorem declareVariable_bind_eq_ok_iff {rest : Slot × Graph → Except Fault α} :
    ((graph.declareVariable name .int).accepted >>= rest) = .ok result ↔
      graph.CanDeclare name ∧ rest (graph.symbols.nextKey, graph.declared name) = .ok result := by
  simp only [bind_eq_ok_iff, Prod.exists, declareVariable_eq_ok_iff]
  constructor
  · rintro ⟨_, _, ⟨can, rfl, rfl⟩, done⟩
    exact ⟨can, done⟩
  · rintro ⟨can, done⟩
    exact ⟨_, _, ⟨can, rfl, rfl⟩, done⟩

theorem temporary_bind_eq_ok_iff {rest : Slot × Graph → Except Fault α} :
    (Lowering.temporary graph >>= rest) = .ok result ↔
      graph.CanTakeTemporary ∧ rest (graph.symbols.nextKey, graph.withTemporary) = .ok result := by
  simp only [bind_eq_ok_iff, Prod.exists, temporary_eq_ok_iff]
  constructor
  · rintro ⟨_, _, ⟨can, rfl, rfl⟩, done⟩
    exact ⟨can, done⟩
  · rintro ⟨can, done⟩
    exact ⟨_, _, ⟨can, rfl, rfl⟩, done⟩

end Graph

end SmallC
