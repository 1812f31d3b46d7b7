import SmallC.Proofs.Graph.Extension

/-!
# Paths through graphs

A path starts at the block that is emitted first and follows the instructions of a block to its exit,
unless one of them leaves the block before.  A certificate says for every block which slots are
written whenever the block is entered.  It is checked place by place, and along every path the slots
that it promises have been written.
-/

namespace SmallC

/-! ## Reading and writing -/

/-- Whether an operation puts a value into its first operand. -/
def Operation.changes : Operation → Bool
  | .ret => false
  | .jump => false
  | _ => true

/-- Whether an operation puts a value into its first operand without reading it. -/
def Operation.overwrites : Operation → Bool
  | .unary _ => false
  | .step _ => false
  | operation => operation.changes

/-- The slot of an operand. -/
def Operand.slot? : Operand → Option Slot
  | .slot key => some key
  | _ => none

/-- The block of an operand. -/
def Operand.block? : Operand → Option BlockId
  | .label id => some id
  | _ => none

namespace Instruction

/-- The slots that an instruction reads. -/
def reads (instruction : Instruction) : List Slot :=
  (if instruction.operation.overwrites then instruction.operands.tail
    else instruction.operands).filterMap Operand.slot?

/-- The slot that an instruction writes. -/
def writes? (instruction : Instruction) : Option Slot :=
  if instruction.operation.changes then instruction.operands.head?.bind Operand.slot? else none

/-- The blocks that an instruction leads to. -/
def targets (instruction : Instruction) : List BlockId :=
  instruction.operands.filterMap Operand.block?

/-- Whether an instruction leaves its block. -/
def leaves (instruction : Instruction) : Bool :=
  instruction.operation == .ret || instruction.operation == .jump

/-- An instruction that puts a value into a slot and reads some others, without leading anywhere. -/
structure Computes (instruction : Instruction) (target : Slot) (sources : List Slot) : Prop where
  reads : instruction.reads = sources
  writes : instruction.writes? = some target
  targets : instruction.targets = []

theorem computes_loadConstant (target : Slot) (value : Int32) :
    (loadConstant target value).Computes target [] :=
  ⟨rfl, rfl, rfl⟩

theorem computes_copy (target source : Slot) : (copy target source).Computes target [source] :=
  ⟨rfl, rfl, rfl⟩

theorem computes_arithmetic (op : ArithmeticOp) (target left right : Slot) :
    (arithmetic op target left right).Computes target [left, right] :=
  ⟨rfl, rfl, rfl⟩

theorem computes_compare (op : CompareOp) (target left right : Slot) :
    (compare op target left right).Computes target [left, right] :=
  ⟨rfl, rfl, rfl⟩

theorem computes_unary (op : UnaryOp) (target : Slot) : (unary op target).Computes target [target] :=
  ⟨rfl, rfl, rfl⟩

theorem computes_step (op : StepOp) (target : Slot) : (step op target).Computes target [target] :=
  ⟨rfl, rfl, rfl⟩

theorem computes_call (target : Slot) (function : String) (arguments : List Slot) :
    (call target function arguments).Computes target arguments := by
  refine ⟨?_, rfl, ?_⟩
  · show (arguments.map Operand.slot).filterMap Operand.slot? = arguments
    rw [List.filterMap_map]
    exact List.filterMap_some
  · show (arguments.map Operand.slot).filterMap Operand.block? = []
    rw [List.filterMap_map]
    simp [Operand.block?]

end Instruction

/-- The blocks that the exit of a block leads to. -/
def Terminator.targets : Terminator → List BlockId
  | .ret => []
  | .jump target => [target]
  | .branch _ onTrue onFalse => [onTrue, onFalse]

/-- The slots that the exit of a block reads. -/
def Terminator.reads : Terminator → List Slot
  | .branch test _ _ => [test]
  | _ => []

/-- What stands at a place of a graph: an instruction or the exit of a block. -/
inductive CodeItem where
  | instruction (instruction : Instruction)
  | exit (terminator : Terminator)

namespace CodeItem

/-- The slots that are read. -/
def reads : CodeItem → List Slot
  | .instruction performed => performed.reads
  | .exit terminator => terminator.reads

/-- The slot that is written. -/
def writes? : CodeItem → Option Slot
  | .instruction performed => performed.writes?
  | .exit _ => none

/-- The blocks that may come next. -/
def targets : CodeItem → List BlockId
  | .instruction performed => performed.targets
  | .exit terminator => terminator.targets

/-- Whether the rest of the block is left out. -/
def leaves : CodeItem → Bool
  | .instruction performed => performed.leaves
  | .exit _ => true

/-- The places that may come next. -/
def nexts (item : CodeItem) (place : BlockId × Nat) : List (BlockId × Nat) :=
  if item.leaves then item.targets.map (·, 0) else [(place.1, place.2 + 1)]

end CodeItem

namespace BasicBlock

/-- What stands at a number of a block: its exit comes after its last instruction. -/
def itemAt? (block : BasicBlock) (number : Nat) : Option CodeItem :=
  if number = block.instructions.length then block.terminator.toOption.map .exit
  else block.instructions[number]?.map .instruction

/-- The slots of a kind that are written before a number of a block, if some are when the block is
entered.  All other slots are left out of account. -/
def available (tracked : Slot → Prop) (entry : Set Slot) (block : BasicBlock) (number : Nat) :
    Set Slot :=
  {slot | tracked slot → slot ∈ entry ∨
    ∃ instruction ∈ block.instructions.take number, instruction.writes? = some slot}

variable {block : BasicBlock} {number : Nat} {item : CodeItem}

theorem lt_or_eq_of_itemAt? (found : block.itemAt? number = some item) :
    (number < block.instructions.length ∧
        ∃ instruction, block.instructions[number]? = some instruction ∧
          item = .instruction instruction) ∨
      number = block.instructions.length ∧
        ∃ terminator, block.terminator = .ok terminator ∧ item = .exit terminator := by
  unfold itemAt? at found
  split at found
  · rename_i atEnd
    rw [Option.map_eq_some_iff] at found
    obtain ⟨terminator, isExit, rfl⟩ := found
    cases ends : block.terminator with
    | error fault => simp [ends, Except.toOption] at isExit
    | ok other =>
      rw [ends] at isExit
      exact .inr ⟨atEnd, terminator, by rw [Option.some.inj isExit], rfl⟩
  · rw [Option.map_eq_some_iff] at found
    obtain ⟨instruction, isInstruction, rfl⟩ := found
    exact .inl ⟨(List.getElem?_eq_some_iff.mp isInstruction).1, instruction, isInstruction, rfl⟩

end BasicBlock

namespace Graph

/-- What stands at a place of a graph. -/
def itemAt? (graph : Graph) (place : BlockId × Nat) : Option CodeItem :=
  (graph.blocks.get? place.1).bind (·.itemAt? place.2)

/-- The items on a way through a graph, and the place where it has led. -/
inductive Path (graph : Graph) : List CodeItem → BlockId × Nat → Prop
  | start {id : BlockId} : graph.firstBlock? = some id → Path graph [] (id, 0)
  | step {done : List CodeItem} {place next : BlockId × Nat} {item : CodeItem} :
      Path graph done place → graph.itemAt? place = some item → next ∈ item.nexts place →
        Path graph (done ++ [item]) next

/-- Goes on from a place, where one of the next places is chosen at every item. -/
def follow (graph : Graph) (done : List CodeItem) (place : BlockId × Nat) :
    List Nat → Option (List CodeItem × BlockId × Nat)
  | [] => some (done, place)
  | choice :: choices => do
      let item ← graph.itemAt? place
      let next ← (item.nexts place)[choice]?
      graph.follow (done ++ [item]) next choices

theorem Path.follow {graph : Graph} {done items : List CodeItem} {place last : BlockId × Nat}
    {choices : List Nat} (path : graph.Path done place)
    (followed : graph.follow done place choices = some (items, last)) : graph.Path items last := by
  induction choices generalizing done place with
  | nil =>
    cases followed
    exact path
  | cons choice choices ih =>
    obtain ⟨item, stands, chosen⟩ := Option.bind_eq_some_iff.mp followed
    obtain ⟨next, isNext, further⟩ := Option.bind_eq_some_iff.mp chosen
    exact ih (path.step stands (List.mem_of_getElem? isNext)) further

/-! ## Certificates -/

/-- What is certified about an item before which some slots are available. -/
structure Covers (known : BlockId → Set Slot) (graph : Graph) (slots : Set Slot)
    (item : CodeItem) : Prop where
  reads : ∀ slot ∈ item.reads, slot ∈ slots
  targets : ∀ target ∈ item.targets, graph.HasBlock target ∧ known target ⊆ slots

/-- A certificate for the slots of a kind: for every block, slots that are written whenever the block
is entered. -/
def Certified (tracked : Slot → Prop) (known : BlockId → Set Slot) (graph : Graph) : Prop :=
  ∀ id block, graph.blocks.get? id = some block → ∀ number item,
    block.itemAt? number = some item →
      graph.Covers known (block.available tracked (known id) number) item

variable {tracked : Slot → Prop} {known other : BlockId → Set Slot} {graph next : Graph}

theorem Covers.mono {slots more : Set Slot} {item : CodeItem}
    (covers : graph.Covers known slots item)
    (blocks : ∀ id, graph.HasBlock id → next.HasBlock id) (subset : slots ⊆ more) :
    next.Covers known more item where
  reads := fun slot read => subset (covers.reads slot read)
  targets := fun target isTarget =>
    ⟨blocks target (covers.targets target isTarget).1,
      (covers.targets target isTarget).2.trans subset⟩

/-- Along a path, what is available has been written.  At the start of a block this is what every way
into the block promises, and inside a block one instruction at a time is added. -/
theorem Certified.written (certified : graph.Certified tracked known)
    (begins : ∀ id, graph.firstBlock? = some id → known id = ∅) {done : List CodeItem}
    {place : BlockId × Nat} (path : graph.Path done place) {block : BasicBlock}
    (found : graph.blocks.get? place.1 = some block) {slot : Slot} (isTracked : tracked slot)
    (available : slot ∈ block.available tracked (known place.1) place.2) :
    ∃ item ∈ done, item.writes? = some slot := by
  induction path generalizing block with
  | start isFirst =>
    rcases available isTracked with entry | ⟨instruction, member, -⟩
    · rw [begins _ isFirst] at entry
      cases entry
    · rw [List.take_zero] at member
      cases member
  | @step done place next item path stands isNext ih =>
    obtain ⟨before, foundBefore, itemFound⟩ := Option.bind_eq_some_iff.mp stands
    have earlier (wasAvailable : slot ∈ before.available tracked (known place.1) place.2) :
        ∃ other ∈ done ++ [item], other.writes? = some slot := by
      obtain ⟨other, member, writes⟩ := ih foundBefore wasAvailable
      exact ⟨other, List.mem_append_left _ member, writes⟩
    unfold CodeItem.nexts at isNext
    split at isNext
    · -- A new block: nothing in it has run yet.
      obtain ⟨target, isTarget, rfl⟩ := List.mem_map.mp isNext
      rcases available isTracked with entry | ⟨instruction, member, -⟩
      · exact earlier
          (((certified _ before foundBefore _ item itemFound).targets target isTarget).2 entry)
      · rw [List.take_zero] at member
        cases member
    · -- The next place of the same block.
      rename_i stays
      obtain rfl := List.mem_singleton.mp isNext
      obtain rfl : before = block := Option.some.inj (foundBefore.symm.trans found)
      rcases available isTracked with entry | ⟨instruction, member, writes⟩
      · exact earlier fun _ => .inl entry
      · rw [List.take_add_one, List.mem_append, Option.mem_toList] at member
        rcases member with old | isLast
        · exact earlier fun _ => .inr ⟨instruction, old, writes⟩
        · rcases BasicBlock.lt_or_eq_of_itemAt? itemFound with
            ⟨-, other, otherFound, rfl⟩ | ⟨-, terminator, -, rfl⟩
          · obtain rfl : instruction = other := Option.some.inj (isLast.symm.trans otherFound)
            exact ⟨_, List.mem_append_right _ List.mem_cons_self, writes⟩
          · exact absurd (show (CodeItem.exit terminator).leaves = true from rfl) stays

/-! ## Certificates of growing graphs -/

/-- The slots of a kind that are written where the code of a graph ends. -/
def available (tracked : Slot → Prop) (known : BlockId → Set Slot) (graph : Graph) : Set Slot :=
  {slot | ∀ block, graph.blocks.get? graph.current = some block →
    slot ∈ block.available tracked (known graph.current) block.instructions.length}

section

variable (certified : graph.Certified tracked known)
include certified

/-- Only the blocks of a graph matter to its certificate. -/
theorem Certified.beside (blocks_eq : next.blocks = graph.blocks) :
    next.Certified tracked known := by
  intro id block found number item stands
  rw [blocks_eq] at found
  refine (certified id block found number item stands).mono (fun id isKnown => ?_) subset_rfl
  rw [HasBlock, blocks_eq]
  exact isKnown

/-- A certificate may say anything about blocks that do not exist. -/
theorem Certified.congr (agrees : ∀ id, graph.HasBlock id → other id = known id) :
    graph.Certified tracked other := by
  intro id block found number item stands
  have covers := certified id block found number item stands
  rw [agrees id (List.getElem?_eq_some_iff.mp found).1]
  refine ⟨covers.reads, fun target isTarget => ?_⟩
  obtain ⟨isKnown, subset⟩ := covers.targets target isTarget
  exact ⟨isKnown, agrees target isKnown ▸ subset⟩

variable {change : BasicBlock → BasicBlock}

/-- The rest of the proof that a change of the current block keeps a certificate: other blocks stay as
they are. -/
theorem Certified.changed
    (covers : ∀ block, graph.blocks.get? graph.current = some block → ∀ number item,
      (change block).itemAt? number = some item →
        graph.Covers known ((change block).available tracked (known graph.current) number) item) :
    (graph.changed graph.current change).Certified tracked known := by
  intro id block found number item stands
  have blocks (id : BlockId) : graph.HasBlock id → (graph.changed graph.current change).HasBlock id :=
    hasBlock_changed.mpr
  by_cases same : id = graph.current
  · subst same
    rw [get?_changed_self, Option.map_eq_some_iff] at found
    obtain ⟨old, foundOld, rfl⟩ := found
    exact (covers old foundOld number item stands).mono blocks subset_rfl
  · rw [get?_changed_of_ne same] at found
    exact (certified id block found number item stands).mono blocks subset_rfl

/-- A new instruction needs what is available where the code ends. -/
theorem Certified.extended {instruction : Instruction}
    (covers : graph.Covers known (graph.available tracked known) (.instruction instruction)) :
    (graph.extended instruction).Certified tracked known := by
  refine certified.changed fun block found number item stands => ?_
  have old := certified graph.current block found
  rcases BasicBlock.lt_or_eq_of_itemAt? stands with
    ⟨-, performed, isPerformed, rfl⟩ | ⟨atEnd, terminator, ends, rfl⟩
  · rw [List.getElem?_append] at isPerformed
    split at isPerformed
    · rename_i inside
      have before : block.itemAt? number = some (.instruction performed) := by
        rw [BasicBlock.itemAt?, if_neg (Nat.ne_of_lt inside), isPerformed, Option.map_some]
      refine (old number _ before).mono (fun _ => id) ?_
      unfold BasicBlock.available
      rw [List.take_append_of_le_length (Nat.le_of_lt inside)]
    · rename_i outside
      rw [List.getElem?_singleton, Option.ite_none_right_eq_some] at isPerformed
      obtain ⟨atEnd, isAdded⟩ := isPerformed
      obtain rfl := Option.some.inj isAdded
      obtain rfl : number = block.instructions.length := by omega
      refine covers.mono (fun _ => id) fun slot isAvailable => ?_
      unfold BasicBlock.available
      rw [List.take_left]
      simpa [BasicBlock.available] using isAvailable block found
  · have before : block.itemAt? block.instructions.length = some (.exit terminator) := by
      have sameEnd : block.terminator = .ok terminator := ends
      rw [BasicBlock.itemAt?, if_pos rfl, sameEnd]
      rfl
    refine (old _ _ before).mono (fun _ => id) fun slot isAvailable isTracked => ?_
    refine (isAvailable isTracked).imp_right ?_
    rintro ⟨earlier, member, writes⟩
    rw [List.take_length] at member
    refine ⟨earlier, ?_, writes⟩
    rw [atEnd, List.take_length]
    exact List.mem_append_left _ member

/-- A new exit needs what is available where the code ends. -/
theorem Certified.linked {terminator : Terminator}
    (keeps : ∀ block : BasicBlock, (change block).instructions = block.instructions)
    (ends : ∀ block : BasicBlock, (change block).terminator = .ok terminator)
    (covers : graph.Covers known (graph.available tracked known) (.exit terminator)) :
    (graph.changed graph.current change).Certified tracked known := by
  refine certified.changed fun block found number item stands => ?_
  unfold BasicBlock.available
  rw [keeps]
  rcases BasicBlock.lt_or_eq_of_itemAt? stands with
    ⟨inside, performed, isPerformed, rfl⟩ | ⟨atEnd, other, isExit, rfl⟩
  · rw [keeps] at inside isPerformed
    refine certified graph.current block found number _ ?_
    rw [BasicBlock.itemAt?, if_neg (Nat.ne_of_lt inside), isPerformed, Option.map_some]
  · obtain rfl : terminator = other := Except.ok.inj ((ends block).symm.trans isExit)
    rw [keeps] at atEnd
    refine covers.mono (fun _ => id) fun slot isAvailable => ?_
    rw [atEnd]
    exact isAvailable block found

end

/-- A certificate that says one thing about all blocks that do not exist yet. -/
def withNew (graph : Graph) (slots : Set Slot) (known : BlockId → Set Slot) (id : BlockId) :
    Set Slot :=
  {slot | graph.HasBlock id ∧ slot ∈ known id ∨ ¬graph.HasBlock id ∧ slot ∈ slots}

theorem withNew_of_hasBlock {id : BlockId} (isKnown : graph.HasBlock id) (slots : Set Slot) :
    graph.withNew slots known id = known id := by
  simp [withNew, isKnown]

theorem withNew_of_not_hasBlock {id : BlockId} (isNew : ¬graph.HasBlock id) (slots : Set Slot) :
    graph.withNew slots known id = slots := by
  simp [withNew, isNew]

/-- An empty block only returns. -/
theorem covers_of_itemAt?_new {label : String} {number : Nat} {item : CodeItem}
    (stands : (BasicBlock.new label).itemAt? number = some item) (slots : Set Slot) :
    graph.Covers known slots item := by
  rcases BasicBlock.lt_or_eq_of_itemAt? stands with ⟨inside, -⟩ | ⟨-, terminator, ends, rfl⟩
  · cases inside
  · obtain rfl : Terminator.ret = terminator := Except.ok.inj ends
    exact ⟨by simp [CodeItem.reads, Terminator.reads], by simp [CodeItem.targets, Terminator.targets]⟩

theorem certified_new (name : String) : (Graph.new name).Certified tracked known := by
  intro id block found number item stands
  obtain ⟨label, rfl⟩ : ∃ label, block = .new label :=
    ⟨_, List.mem_singleton.mp (List.mem_of_getElem? found)⟩
  exact covers_of_itemAt?_new stands _

/-- New blocks are empty, so they need nothing. -/
theorem Certified.created (certified : graph.Certified tracked known) (tag : String) :
    (graph.created tag).Certified tracked known := by
  intro id block found number item stands
  rcases get?_created found with old | ⟨label, rfl⟩
  · refine (certified id block old number item stands).mono (fun id isKnown => ?_) subset_rfl
    exact Nat.lt_of_lt_of_le isKnown (by simp)
  · exact covers_of_itemAt?_new stands _

theorem Certified.createdAll (certified : graph.Certified tracked known) (tags : List String) :
    (graph.createdAll tags).Certified tracked known := by
  induction tags generalizing graph with
  | nil => exact certified
  | cons tag tags ih => exact ih (certified.created tag)

/-! ## What is available -/

theorem available_subset_extended (instruction : Instruction) :
    graph.available tracked known ⊆ (graph.extended instruction).available tracked known := by
  intro slot isAvailable block found
  rw [changed_current, get?_changed_self, Option.map_eq_some_iff] at found
  obtain ⟨old, foundOld, rfl⟩ := found
  intro isTracked
  refine (isAvailable old foundOld isTracked).imp_right ?_
  rintro ⟨earlier, member, writes⟩
  rw [List.take_length] at member
  exact ⟨earlier, by rw [List.take_length]; exact List.mem_append_left _ member, writes⟩

/-- What an instruction writes is available after it. -/
theorem mem_available_extended {instruction : Instruction} {slot : Slot}
    (writes : instruction.writes? = some slot) :
    slot ∈ (graph.extended instruction).available tracked known := by
  intro block found _
  rw [changed_current, get?_changed_self, Option.map_eq_some_iff] at found
  obtain ⟨old, -, rfl⟩ := found
  exact .inr ⟨instruction, by rw [List.take_length]; simp, writes⟩

/-- What a certificate promises about a block is available when the block is entered. -/
theorem subset_available_entered (id : BlockId) :
    known id ⊆ (graph.entered id).available tracked known :=
  fun _ member _ _ _ => .inl member

theorem available_createdAll (isKnown : graph.HasBlock graph.current) (tags : List String) :
    (graph.createdAll tags).available tracked known = graph.available tracked known := by
  induction tags generalizing graph with
  | nil => rfl
  | cons tag tags ih =>
    have stillKnown : (graph.created tag).HasBlock (graph.created tag).current :=
      Nat.lt_of_lt_of_le isKnown (by simp)
    rw [Graph.createdAll, ih stillKnown]
    unfold available
    rw [created_current, get?_created_of_hasBlock isKnown]

/-- What is said about new blocks does not change what is available. -/
theorem available_withNew (isKnown : graph.HasBlock graph.current) (slots : Set Slot)
    (tags : List String) :
    (graph.createdAll tags).available tracked (graph.withNew slots known) =
      graph.available tracked known := by
  rw [available_createdAll isKnown]
  unfold available
  rw [withNew_of_hasBlock isKnown]

end Graph

end SmallC
