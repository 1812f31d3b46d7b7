import SmallC.Proofs.Graph.Operation
import SmallC.Proofs.Scope.Relation

/-!
# Well-formed graphs

A well-formed graph refers only to slots and blocks that it has, in instructions of the shape that
their operations expect, and emits no block twice.  Lowering changes graphs in a few ways only, the
steps below, and each of them keeps a graph well-formed.  What holds initially and is kept by every
step therefore holds of every graph that lowering builds.
-/

namespace SmallC

/-! ## Instructions and blocks -/

/-- An instruction of the shape that its operation expects, with slots and blocks of given kinds. -/
inductive Instruction.WellFormed (slots : Slot → Prop) (blocks : BlockId → Prop) :
    Instruction → Prop
  | loadConstant {target : Slot} (value : Int32) :
      slots target → WellFormed slots blocks (.loadConstant target value)
  | copy {target source : Slot} :
      slots target → slots source → WellFormed slots blocks (.copy target source)
  | arithmetic (op : ArithmeticOp) {target left right : Slot} :
      slots target → slots left → slots right →
        WellFormed slots blocks (.arithmetic op target left right)
  | compare (op : CompareOp) {target left right : Slot} :
      slots target → slots left → slots right →
        WellFormed slots blocks (.compare op target left right)
  | unary (op : UnaryOp) {target : Slot} :
      slots target → WellFormed slots blocks (.unary op target)
  | step (op : StepOp) {target : Slot} :
      slots target → WellFormed slots blocks (.step op target)
  | call (function : String) {target : Slot} {arguments : List Slot} :
      slots target → (∀ argument ∈ arguments, slots argument) →
        WellFormed slots blocks (.call target function arguments)
  | ret {value : Option Slot} :
      (∀ slot ∈ value, slots slot) → WellFormed slots blocks (.ret value)
  | jump {target : BlockId} :
      blocks target → WellFormed slots blocks (.jump target)

/-- A way out of a block that uses slots and blocks of given kinds. -/
def Terminator.WellFormed (slots : Slot → Prop) (blocks : BlockId → Prop) : Terminator → Prop
  | .ret => True
  | .jump target => blocks target
  | .branch test onTrue onFalse => slots test ∧ blocks onTrue ∧ blocks onFalse

/-- A block whose instructions and exits use slots and blocks of given kinds. -/
structure BasicBlock.WellFormed (slots : Slot → Prop) (blocks : BlockId → Prop)
    (block : BasicBlock) : Prop where
  instructions : ∀ instruction ∈ block.instructions, instruction.WellFormed slots blocks
  exits : ∃ terminator, block.terminator = .ok terminator ∧ terminator.WellFormed slots blocks

section Mono

variable {slots slots' : Slot → Prop} {blocks blocks' : BlockId → Prop}

variable {instruction : Instruction}

section

variable (formed : instruction.WellFormed slots blocks)
include formed

theorem Instruction.WellFormed.mono (moreSlots : ∀ slot, slots slot → slots' slot)
    (moreBlocks : ∀ id, blocks id → blocks' id) : instruction.WellFormed slots' blocks' := by
  cases formed with
  | loadConstant value target => exact .loadConstant value (moreSlots _ target)
  | copy target source => exact .copy (moreSlots _ target) (moreSlots _ source)
  | arithmetic op target left right =>
    exact .arithmetic op (moreSlots _ target) (moreSlots _ left) (moreSlots _ right)
  | compare op target left right =>
    exact .compare op (moreSlots _ target) (moreSlots _ left) (moreSlots _ right)
  | unary op target => exact .unary op (moreSlots _ target)
  | step op target => exact .step op (moreSlots _ target)
  | call function target arguments =>
    exact .call function (moreSlots _ target) fun slot found => moreSlots _ (arguments slot found)
  | ret value => exact .ret fun slot found => moreSlots _ (value slot found)
  | jump target => exact .jump (moreBlocks _ target)

/-- Such an instruction has a number of operands that its operation takes. -/
theorem Instruction.WellFormed.make_eq :
    Instruction.make instruction.operation instruction.operands = .ok instruction := by
  cases formed with
  | call function target arguments => simp [Instruction.make, Instruction.call, Operation.accepts]
  | ret value =>
    simp [Instruction.make, Instruction.ret, Operation.accepts, Option.length_toList_le]
  | _ => rfl

/-- So adding it is appending its operation and its operands, which are checked first. -/
theorem Graph.add_eq_appendInstruction {graph : Graph} :
    graph.add instruction =
      graph.appendInstruction graph.current instruction.operation instruction.operands := by
  rw [appendInstruction, formed.make_eq, add, addTo, modifyBlock, Graph.block, Table.get,
    Table.modify, Table.get?]
  by_cases bound : TableKey.index graph.current < graph.blocks.size
  · rw [List.getElem?_eq_getElem bound]
    rfl
  · rw [List.getElem?_eq_none (Nat.not_lt.mp bound), if_neg bound]
    rfl

/-- What holds of known slots and blocks, of numbers and of names holds of all operands. -/
theorem Instruction.WellFormed.operands {holds : Operand → Prop}
    (ofSlot : ∀ slot, slots slot → holds (.slot slot))
    (ofBlock : ∀ id, blocks id → holds (.label id)) (ofLiteral : ∀ value, holds (.literal value))
    (ofFunction : ∀ name, holds (.function name)) :
    ∀ operand ∈ instruction.operands, holds operand := by
  cases formed with
  | loadConstant value target => simp [Instruction.loadConstant, ofSlot _ target, ofLiteral]
  | copy target source => simp [Instruction.copy, ofSlot _ target, ofSlot _ source]
  | arithmetic op target left right =>
    simp [Instruction.arithmetic, ofSlot _ target, ofSlot _ left, ofSlot _ right]
  | compare op target left right =>
    simp [Instruction.compare, ofSlot _ target, ofSlot _ left, ofSlot _ right]
  | unary op target => simp [Instruction.unary, ofSlot _ target]
  | step op target => simp [Instruction.step, ofSlot _ target]
  | call function target arguments =>
    simpa [Instruction.call, ofSlot _ target, ofFunction] using
      fun slot found => ofSlot _ (arguments slot found)
  | ret value => simpa [Instruction.ret] using fun slot found => ofSlot _ (value slot found)
  | jump target => simp [Instruction.jump, ofBlock _ target]

end

theorem Terminator.WellFormed.mono {terminator : Terminator}
    (formed : terminator.WellFormed slots blocks) (moreSlots : ∀ slot, slots slot → slots' slot)
    (moreBlocks : ∀ id, blocks id → blocks' id) : terminator.WellFormed slots' blocks' := by
  cases terminator with
  | ret => trivial
  | jump target => exact moreBlocks _ formed
  | branch test onTrue onFalse =>
    exact ⟨moreSlots _ formed.1, moreBlocks _ formed.2.1, moreBlocks _ formed.2.2⟩

theorem BasicBlock.WellFormed.mono {block : BasicBlock} (formed : block.WellFormed slots blocks)
    (moreSlots : ∀ slot, slots slot → slots' slot) (moreBlocks : ∀ id, blocks id → blocks' id) :
    block.WellFormed slots' blocks' := by
  obtain ⟨terminator, terminator_eq, terminatorFormed⟩ := formed.exits
  exact ⟨fun instruction found => (formed.instructions instruction found).mono moreSlots moreBlocks,
    terminator, terminator_eq, terminatorFormed.mono moreSlots moreBlocks⟩

end Mono

theorem BasicBlock.wellFormed_new (slots : Slot → Prop) (blocks : BlockId → Prop) (label : String) :
    (BasicBlock.new label).WellFormed slots blocks :=
  ⟨by simp [BasicBlock.new], .ret, rfl, trivial⟩

namespace Graph

/-! ## Steps -/

/-- One thing that lowering does to a graph. -/
inductive Step (graph : Graph) : Graph → Prop
  | created (tag : String) : Step graph (graph.created tag)
  | extended {instruction : Instruction} :
      instruction.WellFormed graph.HasSlot graph.HasBlock → Step graph (graph.extended instruction)
  | jumping {target : BlockId} : graph.HasBlock target → Step graph (graph.jumping target)
  | branching {test : Slot} {onTrue onFalse : BlockId} :
      graph.HasSlot test → graph.HasBlock onTrue → graph.HasBlock onFalse →
        Step graph (graph.branching test onTrue onFalse)
  | entered {id : BlockId} : graph.HasBlock id → id ∉ graph.order → Step graph (graph.entered id)
  | declared {name : String} :
      isTemporary name = false → graph.CanDeclare name → Step graph (graph.declared name)
  | withTemporary : graph.CanTakeTemporary → Step graph graph.withTemporary
  | opened : Step graph (graph.inScopes graph.scopes.enter)
  | closed {outer : Scopes Slot} :
      graph.scopes.leave? = some outer → Step graph (graph.inScopes outer)

/-- What lowering does to a graph in any number of steps. -/
def Steps : Graph → Graph → Prop :=
  Relation.ReflTransGen Step

variable {graph next : Graph}

/-- Symbols and blocks are never removed. -/
theorem Step.size_le (step : Step graph next) :
    graph.symbols.size ≤ next.symbols.size ∧ graph.blocks.size ≤ next.blocks.size := by
  cases step <;> simp

theorem Steps.size_le (steps : Steps graph next) :
    graph.symbols.size ≤ next.symbols.size ∧ graph.blocks.size ≤ next.blocks.size := by
  induction steps with
  | refl => exact ⟨Nat.le_refl _, Nat.le_refl _⟩
  | tail _ step ih => exact ⟨Nat.le_trans ih.1 step.size_le.1, Nat.le_trans ih.2 step.size_le.2⟩

/-- The name and the parameters of a function are settled before its body is lowered. -/
theorem Steps.header_eq (steps : Steps graph next) :
    next.name = graph.name ∧ next.parameters = graph.parameters := by
  induction steps with
  | refl => exact ⟨rfl, rfl⟩
  | tail _ step ih => cases step <;> exact ih

theorem Steps.hasSlot (steps : Steps graph next) {slot : Slot} (known : graph.HasSlot slot) :
    next.HasSlot slot :=
  Nat.lt_of_lt_of_le known steps.size_le.1

variable {id : BlockId}

theorem Steps.hasBlock (steps : Steps graph next) (known : graph.HasBlock id) : next.HasBlock id :=
  Nat.lt_of_lt_of_le known steps.size_le.2

/-- The next symbol gets a slot that the graph then has. -/
theorem hasSlot_placed (name : String) (offset : Int) (graph : Graph) :
    (graph.placed name offset).HasSlot graph.symbols.nextKey := by
  have reduced := Nat.mod_le graph.symbols.size (2 ^ 32)
  simp only [HasSlot, Table.nextKey, TableKey.index_ofIndex, placed_symbols, Table.size_push]
  omega

/-! ## Blocks after a change -/

/-- A changed block. -/
theorem get?_changed_self (id : BlockId) (change : BasicBlock → BasicBlock) (graph : Graph) :
    (graph.changed id change).blocks.get? id = (graph.blocks.get? id).map change := by
  simp [Table.get?]

/-- The other blocks stay as they are. -/
theorem get?_changed_of_ne {other : BlockId} (different : other ≠ id)
    (change : BasicBlock → BasicBlock) (graph : Graph) :
    (graph.changed id change).blocks.get? other = graph.blocks.get? other := by
  have indices : TableKey.index id ≠ TableKey.index other := fun same => different <| by
    rw [← TableKey.ofIndex_index other, ← same, TableKey.ofIndex_index]
  simp [Table.get?, indices]

variable {change : BasicBlock → BasicBlock}

/-- A change of the current block keeps the instructions of all blocks if it keeps those of the
current one. -/
theorem instructions_changed
    (grows : ∀ block : BasicBlock, block.instructions <+: (change block).instructions)
    {block : BasicBlock} (found : graph.blocks.get? id = some block) :
    ∃ later, (graph.changed graph.current change).blocks.get? id = some later ∧
      block.instructions <+: later.instructions := by
  by_cases isCurrent : id = graph.current
  · subst isCurrent
    exact ⟨change block, by rw [get?_changed_self, found, Option.map_some], grows block⟩
  · exact ⟨block, by rw [get?_changed_of_ne isCurrent, found], List.prefix_rfl⟩

/-- A new block has nothing in it. -/
theorem get?_created {tag : String} {block : BasicBlock}
    (found : (graph.created tag).blocks.get? id = some block) :
    graph.blocks.get? id = some block ∨ ∃ label, block = .new label := by
  simp only [created_blocks, Table.get?, Table.push, List.getElem?_append] at found
  split at found
  · exact .inl found
  · simp only [List.getElem?_singleton, Option.ite_none_right_eq_some, Option.some.injEq] at found
    exact .inr ⟨_, found.2.symm⟩

theorem get?_created_of_hasBlock (known : graph.HasBlock id) (tag : String) :
    (graph.created tag).blocks.get? id = graph.blocks.get? id :=
  Table.get?_push_of_lt known _

/-! ## Well-formed graphs -/

/-- A graph that refers only to what it has. -/
structure WellFormed (graph : Graph) : Prop where
  current_mem : graph.current ∈ graph.order
  order_nodup : graph.order.Nodup
  order_known : ∀ id ∈ graph.order, graph.HasBlock id
  blocks_formed : ∀ id block, graph.blocks.get? id = some block →
    block.WellFormed graph.HasSlot graph.HasBlock
  /-- Only blocks that are emitted have instructions and exits. -/
  waiting_empty : ∀ id block, graph.blocks.get? id = some block → id ∉ graph.order →
    ∃ label, block = .new label
  scopes_known : ∀ scope ∈ graph.scopes.all, ∀ entry ∈ scope, graph.HasSlot entry.2
  parameters_known : ∀ slot ∈ graph.parameters, graph.HasSlot slot

section

variable (formed : graph.WellFormed)
include formed

theorem WellFormed.hasBlock_current : graph.HasBlock graph.current :=
  formed.order_known _ formed.current_mem

/-- A name in scope stands for a slot of the graph. -/
theorem WellFormed.hasSlot_of_lookup? {name : String} {slot : Slot}
    (found : graph.scopes.lookup? name = some slot) : graph.HasSlot slot := by
  obtain ⟨scope, member, present⟩ := List.mem_flatten.mp (Scopes.mem_of_lookup? found)
  exact formed.scopes_known scope member _ present

/-- Changing the current block keeps a graph well-formed if it keeps the block so. -/
theorem WellFormed.changed
    (changes : ∀ block : BasicBlock, block.WellFormed graph.HasSlot graph.HasBlock →
      (change block).WellFormed graph.HasSlot graph.HasBlock) :
    (graph.changed graph.current change).WellFormed := by
  have sameBlocks : (graph.changed graph.current change).HasBlock = graph.HasBlock := by
    funext id
    simp [HasBlock]
  refine ⟨formed.current_mem, formed.order_nodup, ?known, ?blocks, ?waiting,
    formed.scopes_known, formed.parameters_known⟩
  case known => simpa [sameBlocks] using formed.order_known
  case blocks =>
    intro id block found
    rw [sameBlocks]
    by_cases same : id = graph.current
    · subst same
      rw [get?_changed_self, Option.map_eq_some_iff] at found
      obtain ⟨old, foundOld, rfl⟩ := found
      exact changes old (formed.blocks_formed _ old foundOld)
    · rw [get?_changed_of_ne same] at found
      exact formed.blocks_formed id block found
  case waiting =>
    intro id block found waiting
    have different : id ≠ graph.current := fun same => waiting (same ▸ formed.current_mem)
    rw [get?_changed_of_ne different] at found
    exact formed.waiting_empty id block found waiting

/-- A new symbol that is in scope keeps a graph well-formed. -/
theorem WellFormed.placed (name : String) (offset : Int) :
    (graph.placed name offset).WellFormed := by
  have moreSlots : ∀ slot, graph.HasSlot slot → (graph.placed name offset).HasSlot slot := by
    intro slot known
    simp only [HasSlot, placed_symbols, Table.size_push]
    exact Nat.lt_succ_of_lt known
  refine ⟨formed.current_mem, formed.order_nodup, formed.order_known, ?blocks,
    formed.waiting_empty, ?scopes, fun slot member => moreSlots slot
      (formed.parameters_known slot member)⟩
  case blocks =>
    intro id block found
    exact (formed.blocks_formed id block found).mono moreSlots fun _ known => known
  case scopes =>
    simp only [placed_scopes, Scopes.all, Scopes.declare, List.forall_mem_cons]
    refine ⟨⟨hasSlot_placed name offset graph, ?_⟩, ?_⟩
    · intro entry member
      exact moreSlots _ (formed.scopes_known _ (by simp [Scopes.all]) entry member)
    · intro scope enclosing entry member
      exact moreSlots _ (formed.scopes_known scope (by simp [Scopes.all, enclosing]) entry member)

/-- Every step keeps a graph well-formed. -/
theorem WellFormed.step (step : Step graph next) : next.WellFormed := by
  cases step with
  | created tag =>
    have moreBlocks : ∀ id, graph.HasBlock id → (graph.created tag).HasBlock id := by
      intro id known
      simp only [HasBlock, created_blocks, Table.size_push]
      exact Nat.lt_succ_of_lt known
    refine ⟨formed.current_mem, formed.order_nodup,
      fun id member => moreBlocks id (formed.order_known id member), ?_, ?_,
      formed.scopes_known, formed.parameters_known⟩
    · intro id block found
      obtain old | ⟨label, rfl⟩ := get?_created found
      · exact (formed.blocks_formed id block old).mono (fun _ known => known) moreBlocks
      · exact BasicBlock.wellFormed_new _ _ label
    · intro id block found waiting
      obtain old | isNew := get?_created found
      · exact formed.waiting_empty id block old waiting
      · exact isNew
  | extended instructionFormed =>
    refine formed.changed fun block blockFormed => ⟨?_, blockFormed.exits⟩
    intro instruction member
    rw [List.mem_append, List.mem_singleton] at member
    rcases member with old | rfl
    · exact blockFormed.instructions instruction old
    · exact instructionFormed
  | jumping target =>
    exact formed.changed fun block blockFormed =>
      ⟨blockFormed.instructions, .jump _, rfl, target⟩
  | branching test onTrue onFalse =>
    exact formed.changed fun block blockFormed =>
      ⟨blockFormed.instructions, .branch _ _ _, rfl, test, onTrue, onFalse⟩
  | entered known waiting =>
    refine ⟨by simp, ?_, ?_, formed.blocks_formed, ?_, formed.scopes_known, formed.parameters_known⟩
    · rw [entered_order, List.nodup_append]
      refine ⟨formed.order_nodup, by simp, ?_⟩
      rintro id emitted _ entered rfl
      exact waiting (List.mem_singleton.mp entered ▸ emitted)
    · simpa [or_imp, forall_and] using ⟨formed.order_known, known⟩
    · intro id block found notEmitted
      exact formed.waiting_empty id block found fun emitted => notEmitted (by simp [emitted])
  | declared _ _ | withTemporary _ => exact { formed.placed _ _ with }
  | opened =>
    refine { formed with scopes_known := ?_ }
    rw [inScopes_scopes, Scopes.all_enter, List.forall_mem_cons]
    exact ⟨by simp, formed.scopes_known⟩
  | closed left =>
    refine { formed with scopes_known := ?_ }
    intro scope member
    refine formed.scopes_known scope ?_
    rw [Scopes.all_of_leave? left]
    exact List.mem_cons_of_mem _ member

end

theorem Steps.wellFormed (steps : Steps graph next) (formed : graph.WellFormed) :
    next.WellFormed := by
  induction steps with
  | refl => exact formed
  | tail _ step ih => exact ih.step step

end Graph

end SmallC
