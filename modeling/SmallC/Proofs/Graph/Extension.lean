import SmallC.Proofs.Graph.Invariant

/-!
# Code that stays

Lowering never changes code that it has written: a block only gets more instructions, and once
another block is the current one it stays as it is.  So the code that a part of a program is lowered
to can be found in the finished graph, where the graph at that moment said that the next instruction
would go.
-/

namespace SmallC.Graph

variable {graph next final : Graph} {id : BlockId} {block : BasicBlock}

/-! ## Blocks of later graphs -/

/-- Instructions are only added at the end of a block. -/
theorem Step.instructions_prefix (step : Step graph next)
    (found : graph.blocks.get? id = some block) :
    ∃ later, next.blocks.get? id = some later ∧ block.instructions <+: later.instructions := by
  cases step with
  | created tag =>
    have known : graph.HasBlock id := Nat.not_le.mp fun missing => by
      rw [Table.get?_eq_none_iff.mpr missing] at found
      cases found
    exact ⟨block, by rw [get?_created_of_hasBlock known, found], List.prefix_rfl⟩
  | extended _ => exact instructions_changed (fun old => List.prefix_append _ _) found
  | jumping _ | branching _ _ _ =>
    refine instructions_changed ?_ found
    exact fun _ => List.prefix_rfl
  | entered _ _ | declared _ _ | withTemporary _ | opened
  | closed _ => exact ⟨block, found, List.prefix_rfl⟩

theorem Steps.instructions_prefix (steps : Steps graph next)
    (found : graph.blocks.get? id = some block) :
    ∃ later, next.blocks.get? id = some later ∧ block.instructions <+: later.instructions := by
  induction steps with
  | refl => exact ⟨block, found, List.prefix_rfl⟩
  | tail _ step ih =>
    obtain ⟨middle, foundMiddle, before⟩ := ih
    obtain ⟨later, foundLater, after⟩ := step.instructions_prefix foundMiddle
    exact ⟨later, foundLater, before.trans after⟩

/-- An emitted block that is not the current one. -/
structure Settled (graph : Graph) (id : BlockId) : Prop where
  emitted : id ∈ graph.order
  left : id ≠ graph.current

/-- A settled block stays settled, and stays as it is. -/
theorem Step.settled (step : Step graph next) (formed : graph.WellFormed)
    (settled : graph.Settled id) :
    next.Settled id ∧ next.blocks.get? id = graph.blocks.get? id := by
  obtain ⟨emitted, left⟩ := settled
  cases step with
  | created tag => exact ⟨⟨emitted, left⟩, get?_created_of_hasBlock (formed.order_known id emitted) _⟩
  | extended _ | jumping _ | branching _ _ _ => exact ⟨⟨emitted, left⟩, get?_changed_of_ne left _ _⟩
  | entered _ waits =>
    refine ⟨⟨List.mem_append_left _ emitted, ?_⟩, rfl⟩
    rintro rfl
    exact waits emitted
  | declared _ _ | withTemporary _ | opened | closed _ => exact ⟨⟨emitted, left⟩, rfl⟩

theorem Steps.settled (steps : Steps graph next) (formed : graph.WellFormed)
    (settled : graph.Settled id) :
    next.Settled id ∧ next.blocks.get? id = graph.blocks.get? id := by
  induction steps with
  | refl => exact ⟨settled, rfl⟩
  | tail before step ih =>
    obtain ⟨later, same⟩ := step.settled (Steps.wellFormed before formed) ih.1
    exact ⟨later, same.trans ih.2⟩

/-- The block that is emitted first stays the first. -/
theorem Steps.firstBlock? (steps : Steps graph next) (found : graph.firstBlock? = some id) :
    next.firstBlock? = some id := by
  induction steps with
  | refl => exact found
  | tail _ step ih =>
    cases step with
    | entered _ _ =>
      rw [Graph.firstBlock?, entered_order, List.head?_append]
      rw [Graph.firstBlock?] at ih
      rw [ih]
      rfl
    | _ => exact ih

/-! ## Positions -/

/-- The number that the next instruction of the current block gets. -/
def position (graph : Graph) : Nat :=
  (graph.blocks.get? graph.current).elim 0 fun block => block.instructions.length

section

variable (known : graph.HasBlock graph.current)
include known

theorem position_extended (instruction : Instruction) :
    (graph.extended instruction).position = graph.position + 1 := by
  obtain ⟨block, found⟩ := exists_block known
  simp [position, get?_changed_self, found]

theorem position_created (tag : String) : (graph.created tag).position = graph.position := by
  unfold position
  rw [created_current, get?_created_of_hasBlock known]

@[simp]
theorem position_createdAll (tags : List String) :
    (graph.createdAll tags).position = graph.position := by
  induction tags generalizing graph with
  | nil => rfl
  | cons tag tags ih =>
    have stillKnown : (graph.created tag).HasBlock (graph.created tag).current :=
      Steps.hasBlock (.single (.created tag)) known
    rw [createdAll, ih stillKnown, position_created known]

end

/-- A block that is entered starts empty. -/
theorem position_entered (formed : graph.WellFormed) (waits : id ∉ graph.order) :
    (graph.entered id).position = 0 := by
  unfold position
  rw [entered_current, entered_blocks]
  cases found : graph.blocks.get? id with
  | none => rfl
  | some block =>
    obtain ⟨label, rfl⟩ := formed.waiting_empty id block found waits
    rfl

/-! ## Code of later graphs -/

/-- An added instruction stands in every later graph at the position where it was added. -/
theorem instruction_of_steps (known : graph.HasBlock graph.current) {instruction : Instruction}
    (steps : Steps (graph.extended instruction) final) :
    ∃ block, final.blocks.get? graph.current = some block ∧
      block.instructions[graph.position]? = some instruction := by
  obtain ⟨block, found⟩ := exists_block known
  have added : (graph.extended instruction).blocks.get? graph.current =
      some { block with instructions := block.instructions ++ [instruction] } := by
    rw [get?_changed_self, found, Option.map_some]
  obtain ⟨later, foundLater, before⟩ := steps.instructions_prefix added
  refine ⟨later, foundLater, ?_⟩
  obtain ⟨others, instructions_eq⟩ := before
  simp [← instructions_eq, position, found]

/-- The way out of a block stands in every later graph, right after its instructions. -/
theorem exit_of_steps (formed : graph.WellFormed) {change : BasicBlock → BasicBlock}
    (linked : Step graph (graph.changed graph.current change))
    (keeps : ∀ block : BasicBlock, (change block).instructions = block.instructions)
    (known : graph.HasBlock id) (waits : id ∉ graph.order)
    (steps : Steps ((graph.changed graph.current change).entered id) final) :
    ∃ block, final.blocks.get? graph.current = some (change block) ∧
      (change block).instructions.length = graph.position := by
  obtain ⟨block, found⟩ := exists_block formed.hasBlock_current
  have settled : ((graph.changed graph.current change).entered id).Settled graph.current := by
    refine ⟨List.mem_append_left _ formed.current_mem, ?_⟩
    intro (same : graph.current = id)
    exact waits (same ▸ formed.current_mem)
  have linkedFormed := (formed.step linked).step (.entered (hasBlock_changed.mpr known) waits)
  refine ⟨block, ?_, ?_⟩
  · rw [(steps.settled linkedFormed settled).2, entered_blocks, get?_changed_self, found,
      Option.map_some]
  · simp [position, found, keeps]

end SmallC.Graph
