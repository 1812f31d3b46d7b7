import SmallC.Proofs.Lowering.Moves

/-!
# Additions to graphs

Lowering works on the current block and on blocks that it creates itself.  All other blocks stay as
they are, and of the current one only the end changes.
-/

namespace SmallC

/-! ## Scopes -/

/-- Scopes of which only the innermost one has more names: the given ones, and names of temporaries.
All of them are new there. -/
structure Scopes.Adds (names : List String) (scopes next : Scopes Slot) : Prop where
  enclosing_eq : next.enclosing = scopes.enclosing
  innermost_eq : ∃ added, next.innermost = added ++ scopes.innermost ∧
    (added.map Prod.fst).Nodup ∧
    (∀ name ∈ added.map Prod.fst, scopes.declaresHere name = false) ∧
    (∀ name ∈ names, name ∈ added.map Prod.fst) ∧
    ∀ name ∈ added.map Prod.fst, name ∈ names ∨ ∃ number, name = Graph.temporaryName number

namespace Scopes

variable {names more : List String} {scopes middle next : Scopes Slot}

theorem declaresHere_eq_false_iff {name : String} :
    scopes.declaresHere name = false ↔ name ∉ scopes.innermost.map Prod.fst := by
  rw [declaresHere, Scope.declares, Option.isSome_eq_false_iff, Option.isNone_iff_eq_none,
    List.lookup_eq_none_iff]
  simp only [List.mem_map, not_exists, not_and, bne_iff_ne]
  exact ⟨fun missing entry member same => missing entry member same.symm,
    fun missing entry member same => missing entry member same.symm⟩

theorem Adds.refl (scopes : Scopes Slot) : Adds [] scopes scopes :=
  ⟨rfl, [], by simp⟩

theorem Adds.trans (adds : Adds names scopes middle) (further : Adds more middle next) :
    Adds (names ++ more) scopes next := by
  obtain ⟨first, first_eq, firstNodup, firstNew, firstHas, firstOnly⟩ := adds.innermost_eq
  obtain ⟨second, second_eq, secondNodup, secondNew, secondHas, secondOnly⟩ := further.innermost_eq
  -- A name of the second part is new after the first, so it is in neither of the parts before it.
  have apart (name : String) (member : name ∈ second.map Prod.fst) :
      name ∉ first.map Prod.fst ∧ scopes.declaresHere name = false := by
    have missing := declaresHere_eq_false_iff.mp (secondNew name member)
    rwa [first_eq, List.map_append, List.mem_append, not_or, ← declaresHere_eq_false_iff] at missing
  refine ⟨further.enclosing_eq.trans adds.enclosing_eq, second ++ first, ?_, ?_, ?_, ?_, ?_⟩
  · rw [second_eq, first_eq, List.append_assoc]
  · rw [List.map_append, List.nodup_append]
    refine ⟨secondNodup, firstNodup, ?_⟩
    rintro name later _ earlier rfl
    exact (apart name later).1 earlier
  · simp only [List.map_append, List.mem_append]
    rintro name (later | earlier)
    · exact (apart name later).2
    · exact firstNew name earlier
  · simp only [List.map_append, List.mem_append]
    rintro name (earlier | later)
    · exact .inr (firstHas name earlier)
    · exact .inl (secondHas name later)
  · simp only [List.map_append, List.mem_append]
    rintro name (later | earlier)
    · exact (secondOnly name later).imp_left .inr
    · exact (firstOnly name earlier).imp_left .inl

theorem Adds.declare {name : String} (free : scopes.declaresHere name = false) (slot : Slot) :
    Adds [name] scopes (scopes.declare name slot) :=
  ⟨rfl, [(name, slot)], rfl, by simp, by simpa using free, by simp, by simp⟩

theorem Adds.declare_temporary {number : Nat}
    (free : scopes.declaresHere (Graph.temporaryName number) = false) (slot : Slot) :
    Adds [] scopes (scopes.declare (Graph.temporaryName number) slot) :=
  ⟨rfl, [(Graph.temporaryName number, slot)], rfl, by simp, by simpa using free, by simp,
    by simp⟩

/-- Closing a scope that was opened gives back the scopes around it. -/
theorem Adds.leave?_eq (adds : Adds names scopes.enter next) : next.leave? = some scopes := by
  rw [Scopes.leave?, adds.enclosing_eq]
  rfl

/-- Scopes that have only more temporaries have the same variables. -/
theorem Adds.named_eq (adds : Adds [] scopes next) : next.named = scopes.named := by
  obtain ⟨added, innermost_eq, -, -, -, only⟩ := adds.innermost_eq
  have none : Scope.named added = [] := by
    refine List.filter_eq_nil_iff.mpr fun entry member => ?_
    obtain absurd | ⟨number, name_eq⟩ := only entry.1 (List.mem_map_of_mem member)
    · cases absurd
    · simp [name_eq]
  have same : Scope.named next.innermost = Scope.named scopes.innermost := by
    rw [innermost_eq, Scope.named, List.filter_append]
    exact congrArg (· ++ _) none
  rw [named, named, same, adds.enclosing_eq]

end Scopes

namespace Graph

variable {graph start middle next : Graph} {id : BlockId} {ids : List BlockId}
  {names more : List String}

/-! ## Blocks without exits -/

/-- A block that leads nowhere yet. -/
def Exitless (graph : Graph) (id : BlockId) : Prop :=
  ∃ block, graph.blocks.get? id = some block ∧ block.exitTrue = none ∧ block.exitFalse = none

/-- A block that will be entered later. -/
structure Awaits (graph : Graph) (id : BlockId) : Prop where
  different : id ≠ graph.current
  exitless : graph.Exitless id

theorem Exitless.hasBlock (exitless : graph.Exitless id) : graph.HasBlock id := by
  obtain ⟨_, found, -⟩ := exitless
  exact hasBlock_of_get? found

/-- Changing the current block does not change one that waits. -/
theorem Awaits.exitless_changed (waits : graph.Awaits id) (change : BasicBlock → BasicBlock) :
    (graph.changed graph.current change).Exitless id := by
  obtain ⟨block, found, exits⟩ := waits.exitless
  exact ⟨block, by rw [get?_changed_of_ne waits.different, found], exits⟩

/-! ## Additions -/

/-- Blocks of a graph that are still the same in a later one, except for the current block. -/
structure KeepsBlocks (graph next : Graph) : Prop where
  blocks : ∀ id block, id ≠ graph.current → graph.blocks.get? id = some block →
    next.blocks.get? id = some block
  current : next.current = graph.current ∨ ¬graph.HasBlock next.current
  exitless : graph.Exitless graph.current → next.Exitless next.current

/-- A later graph in which nothing is missing, only the end of the current block has changed, and the
innermost scope has the given names and names of temporaries in addition.  That other blocks are the
same depends on their keys, so it holds as long as keys do not run out. -/
structure Addition (names : List String) (graph next : Graph) : Prop where
  size_le : graph.blocks.size ≤ next.blocks.size
  symbols_extended : graph.symbols.entries <+: next.symbols.entries
  scopes : Scopes.Adds names graph.scopes next.scopes
  instructions_prefix : ∀ id block, graph.blocks.get? id = some block →
    ∃ later, next.blocks.get? id = some later ∧ block.instructions <+: later.instructions
  atLast : graph.AtLast → next.AtLast
  hasBlock_current : graph.HasBlock graph.current → next.HasBlock next.current
  keeps : next.blocks.size ≤ 2 ^ 32 → KeepsBlocks graph next

theorem KeepsBlocks.different (keeps : KeepsBlocks graph next) (different : id ≠ graph.current)
    (known : graph.HasBlock id) : id ≠ next.current := by
  rintro rfl
  exact keeps.current.elim different fun isNew => isNew known

namespace Addition

theorem refl (graph : Graph) : Addition [] graph graph where
  size_le := Nat.le_refl _
  symbols_extended := List.prefix_rfl
  scopes := .refl _
  instructions_prefix := fun _ block found => ⟨block, found, List.prefix_rfl⟩
  atLast := id
  hasBlock_current := id
  keeps := fun _ => ⟨fun _ _ _ found => found, .inl rfl, id⟩

theorem hasBlock (addition : Addition names graph next) (known : graph.HasBlock id) : next.HasBlock id :=
  Nat.lt_of_lt_of_le known addition.size_le

theorem trans (addition : Addition names graph middle) (further : Addition more middle next) :
    Addition (names ++ more) graph next where
  size_le := Nat.le_trans addition.size_le further.size_le
  symbols_extended := addition.symbols_extended.trans further.symbols_extended
  scopes := addition.scopes.trans further.scopes
  instructions_prefix := by
    intro id block found
    obtain ⟨between, foundBetween, before⟩ := addition.instructions_prefix id block found
    obtain ⟨later, foundLater, after⟩ := further.instructions_prefix id between foundBetween
    exact ⟨later, foundLater, before.trans after⟩
  atLast := further.atLast ∘ addition.atLast
  hasBlock_current := further.hasBlock_current ∘ addition.hasBlock_current
  keeps := by
    intro room
    have first := addition.keeps (Nat.le_trans further.size_le room)
    have second := further.keeps room
    refine ⟨?_, ?_, second.exitless ∘ first.exitless⟩
    · intro id block different found
      exact second.blocks id block (first.different different (hasBlock_of_get? found))
        (first.blocks id block different found)
    · rcases second.current with same | isNew
      · exact same ▸ first.current
      · exact .inr fun known => isNew (addition.hasBlock known)

/-- A block that waits is not touched. -/
theorem waits (addition : Addition names graph next) (room : next.blocks.size ≤ 2 ^ 32)
    (waits : graph.Awaits id) : next.Awaits id := by
  have keeps := addition.keeps room
  obtain ⟨block, found, exits⟩ := waits.exitless
  exact ⟨keeps.different waits.different (hasBlock_of_get? found), block,
    keeps.blocks id block waits.different found, exits⟩

/-- Changes of symbols and scopes. -/
theorem beside (blocks_eq : next.blocks = graph.blocks) (order_eq : next.order = graph.order)
    (current_eq : next.current = graph.current)
    (symbols_extended : graph.symbols.entries <+: next.symbols.entries)
    (scopes : Scopes.Adds names graph.scopes next.scopes) : Addition names graph next where
  size_le := by rw [blocks_eq]
  symbols_extended := symbols_extended
  scopes := scopes
  instructions_prefix := fun _ block found => ⟨block, by rw [blocks_eq, found], List.prefix_rfl⟩
  atLast := by
    unfold AtLast
    rw [order_eq, current_eq]
    exact id
  hasBlock_current := by
    unfold HasBlock
    rw [blocks_eq, current_eq]
    exact id
  keeps := by
    intro _
    refine ⟨fun _ _ _ found => by rw [blocks_eq, found], .inl current_eq, ?_⟩
    unfold Exitless
    rw [blocks_eq, current_eq]
    exact id

theorem declared {name : String} (can : graph.CanDeclare name) :
    Addition [name] graph (graph.declared name) :=
  beside rfl rfl rfl (List.prefix_append _ _) (.declare can.free _)

theorem withTemporary (can : graph.CanTakeTemporary) : Addition [] graph graph.withTemporary :=
  beside rfl rfl rfl (List.prefix_append _ _) (.declare_temporary can.free _)

/-- What is lowered in a scope of its own leaves no name behind. -/
theorem enclosed (addition : Addition names (graph.inScopes graph.scopes.enter) next) :
    Addition [] graph (next.inScopes graph.scopes) where
  size_le := addition.size_le
  symbols_extended := addition.symbols_extended
  scopes := .refl _
  instructions_prefix := addition.instructions_prefix
  atLast := addition.atLast
  hasBlock_current := addition.hasBlock_current
  keeps := by
    intro room
    obtain ⟨blocks, current, exitless⟩ := addition.keeps room
    exact ⟨blocks, current, exitless⟩

theorem extended (instruction : Instruction) (graph : Graph) :
    Addition [] graph (graph.extended instruction) where
  size_le := by rw [size_changed]
  symbols_extended := List.prefix_rfl
  scopes := .refl _
  instructions_prefix := fun _ _ found =>
    instructions_changed (fun _ => List.prefix_append _ _) found
  atLast := id
  hasBlock_current := hasBlock_changed.mpr
  keeps := by
    intro _
    refine ⟨fun _ _ different found => by rw [get?_changed_of_ne different, found], .inl rfl, ?_⟩
    rintro ⟨block, found, exits⟩
    refine ⟨{ block with instructions := block.instructions ++ [instruction] }, ?_, exits⟩
    rw [changed_current, get?_changed_self, found, Option.map_some]

theorem created (tag : String) (graph : Graph) : Addition [] graph (graph.created tag) where
  size_le := by simp
  symbols_extended := List.prefix_rfl
  scopes := .refl _
  instructions_prefix := fun _ block found =>
    ⟨block, by rw [get?_created_of_hasBlock (hasBlock_of_get? found), found], List.prefix_rfl⟩
  atLast := id
  hasBlock_current := fun known => Nat.lt_of_lt_of_le known (by simp)
  keeps := by
    intro _
    refine ⟨fun _ _ _ found => ?_, .inl rfl, ?_⟩
    · rw [get?_created_of_hasBlock (hasBlock_of_get? found), found]
    · rintro ⟨block, found, exits⟩
      exact ⟨block, by
        rw [created_current, get?_created_of_hasBlock (hasBlock_of_get? found), found], exits⟩

theorem createdAll (tags : List String) (graph : Graph) :
    Addition [] graph (graph.createdAll tags) := by
  induction tags generalizing graph with
  | nil => exact refl graph
  | cons tag tags ih => exact (created tag graph).trans (ih _)

end Addition

end Graph

end SmallC
