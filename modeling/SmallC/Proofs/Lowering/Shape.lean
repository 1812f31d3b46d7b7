import SmallC.Proofs.Graph.Extension
import SmallC.Proofs.Lowering.Complete

/-!
# The shape of finished graphs

A finished graph emits every block that was created, each of them once, and refers to nothing else.
Only the block that is emitted last has no exits: a block gets its exits before another one is
entered, and the one that is current in the end was never left.
-/

namespace SmallC

namespace Graph

variable {defined : String → Bool} {graph next : Graph} {id : BlockId} {block : BasicBlock}

/-! ## Emitted blocks -/

theorem mem_keys_of_hasBlock (known : graph.HasBlock id) : id ∈ graph.blocks.keys := by
  rw [Table.keys, List.mem_map]
  exact ⟨TableKey.index id, List.mem_range.mpr known, TableKey.ofIndex_index id⟩

/-- A graph without waiting blocks emits all of its blocks. -/
theorem WellFormed.order_perm (formed : graph.WellFormed) (waiting_eq : graph.waitingCount = 0) :
    graph.order.Perm graph.blocks.keys := by
  have known : graph.order ⊆ graph.blocks.keys := by
    intro id emitted
    exact mem_keys_of_hasBlock (formed.order_known id emitted)
  refine (List.subperm_of_subset formed.order_nodup known).perm_of_length_le ?_
  rw [Table.keys, List.length_map, List.length_range]
  unfold waitingCount at waiting_eq
  omega

/-- An operand that refers to a symbol of a graph or to a block that it emits, if it refers to
one. -/
def Refers (graph : Graph) : Operand → Prop
  | .slot slot => graph.HasSlot slot
  | .label id => id ∈ graph.order
  | .literal _ => True
  | .function _ => True

/-- The operands of a well-formed instruction refer to what the graph has. -/
theorem refers_of_wellFormed {instruction : Instruction}
    (formed : instruction.WellFormed graph.HasSlot (· ∈ graph.order)) :
    ∀ operand ∈ instruction.operands, graph.Refers operand :=
  formed.operands (fun _ known => known) (fun _ known => known) (fun _ => trivial) fun _ => trivial

/-- A finished graph. -/
structure Complete (graph : Graph) : Prop where
  order_nodup : graph.order.Nodup
  /-- Every block that was created is emitted. -/
  order_perm : graph.order.Perm graph.blocks.keys
  starts : graph.order.head? = some ⟨0⟩
  /-- The links of a block have one of the three shapes and lead to emitted blocks. -/
  exits : ∀ id block, graph.blocks.get? id = some block →
    ∃ terminator, block.terminator = .ok terminator ∧
      terminator.WellFormed graph.HasSlot (· ∈ graph.order)
  operands : ∀ id block, graph.blocks.get? id = some block →
    ∀ instruction ∈ block.instructions, ∀ operand ∈ instruction.operands, graph.Refers operand
  ends : graph.order.getLast? = some graph.current
  /-- The block without exits is the one that is emitted last. -/
  returns_iff : ∀ id block, graph.blocks.get? id = some block →
    ((block.exitTrue = none ∧ block.exitFalse = none) ↔ id = graph.current)

/-- A graph whose blocks are linked in the order in which they were entered, and that leaves no block
waiting, is finished. -/
theorem WellFormed.complete (formed : graph.WellFormed) (waiting_eq : graph.waitingCount = 0)
    (linked : graph.Linked) (last : graph.AtLast) (starts : graph.firstBlock? = some ⟨0⟩) :
    graph.Complete := by
  have perm := formed.order_perm waiting_eq
  have emitted (id : BlockId) (known : graph.HasBlock id) : id ∈ graph.order :=
    perm.mem_iff.mpr (mem_keys_of_hasBlock known)
  refine ⟨formed.order_nodup, perm, starts, ?exits, ?operands, last, ?returns⟩
  case exits =>
    intro id block found
    obtain ⟨terminator, terminator_eq, terminatorFormed⟩ :=
      (formed.blocks_formed id block found).exits
    exact ⟨terminator, terminator_eq, terminatorFormed.mono (fun _ known => known) emitted⟩
  case operands =>
    intro id block found instruction member
    exact refers_of_wellFormed (((formed.blocks_formed id block found).instructions instruction
      member).mono (fun _ known => known) emitted)
  case returns =>
    intro id block found
    constructor
    · rintro ⟨noExit, -⟩
      by_contra different
      obtain ⟨same, foundSame, hasExit⟩ := linked.exits id
        (emitted id (hasBlock_of_get? found)) different
      rw [found, Option.some.injEq] at foundSame
      rw [← foundSame, noExit] at hasExit
      cases hasExit
    · rintro rfl
      exact linked.openEnded block found

end Graph

namespace Lowering

open SmallC.Graph

variable {defined : String → Bool} {function : FunctionDef} {graph : Graph}

theorem complete_lowerFunction (tree : function.WellFormed)
    (lowered : lowerFunction defined function = .ok graph) : graph.Complete := by
  obtain ⟨taken, functionLowered⟩ := functionLowered_of_lowerFunction tree lowered
  have took := functionLowered.took
  have waiting_eq : graph.waitingCount = 0 := by
    rw [functionLowered.built.waiting_eq, waitingCount, took.blocks_eq, took.order_eq]
    rfl
  have last : graph.AtLast := by
    refine functionLowered.built.addition.atLast ?_
    rw [AtLast, took.order_eq, took.current_eq]
    rfl
  have starts : graph.firstBlock? = some ⟨0⟩ := by
    apply functionLowered.steps.firstBlock?
    rw [firstBlock?, took.order_eq]
    rfl
  exact functionLowered.kept.formed.complete waiting_eq
    (functionLowered.moves.linked (linked_new _)) last starts

end Lowering

/-- Every graph of a lowered program is finished. -/
theorem lower_completes_graphs {text : List Char} {program : Program} {graphs : List Graph}
    (parsed : parseProgram text = .ok program) (lowered : program.lower = .ok graphs) :
    ∀ graph ∈ graphs, graph.Complete := by
  intro graph member
  have tree := Program.wellFormed_of_parse parsed
  have all := Lowering.functionLowered_of_lowerFunctions tree lowered
  obtain ⟨function, present, functionLowered, -⟩ := exists_mem_of_forall₂ all member
  exact Lowering.complete_lowerFunction (tree function present) functionLowered

/-- A loop with conditions that split blocks, and with code after jumps out of it. -/
theorem lower_completes_graphs_loop :
    ∃ program graph,
      parseProgram
          "int f(int a)\x7bfor(;a||g(a);a--)\x7bif(a)break;else continue;a=1;\x7d\x7d".toList =
          .ok program ∧
        program.lower = .ok [graph] ∧ graph.Complete := by
  have evaluated : (parseProgram
      "int f(int a)\x7bfor(;a||g(a);a--)\x7bif(a)break;else continue;a=1;\x7d\x7d".toList).toOption.any
        (fun program => program.lower.toOption.any fun graphs => graphs.length == 1) = true := by
    cbv
  obtain ⟨program, graphs, parsed, lowered, one⟩ := exists_lowered_of_any evaluated
  rw [beq_iff_eq, List.length_eq_one_iff] at one
  obtain ⟨graph, rfl⟩ := one
  exact ⟨program, graph, parsed, lowered,
    lower_completes_graphs parsed lowered graph (List.mem_singleton_self graph)⟩

end SmallC
