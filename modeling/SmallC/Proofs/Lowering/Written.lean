import SmallC.Proofs.Graph.Tracking

/-!
# Temporaries are written before they are read

Lowering certifies its own code.  While an expression is lowered, what has been written stays
written, also across the blocks of a logical operator, whose result is set before the first of them is
entered.  Between statements nothing has to be kept, so the blocks of a statement promise nothing.
-/

namespace SmallC

namespace Lowering

open SmallC.Graph

variable {defined : String → Bool} {final graph middle next : Graph}
  {known between other : BlockId → Set Slot} {slot : Slot}

/-! ## Expressions -/

/-- A later graph in which everything is available that was before. -/
structure Retains (final graph : Graph) (known : BlockId → Set Slot) (next : Graph)
    (other : BlockId → Set Slot) : Prop where
  later : Later final graph known next other
  keeps : graph.available final.IsTemporary known ⊆ next.available final.IsTemporary other

namespace Retains

theorem refl (tracked : Tracked final known graph) : Retains final graph known graph known :=
  ⟨.refl tracked, subset_rfl⟩

theorem trans (retains : Retains final graph known middle between)
    (further : Retains final middle between next other) : Retains final graph known next other :=
  ⟨retains.later.trans further.later, retains.keeps.trans further.keeps⟩

theorem withTemporary (tracked : Tracked final known graph) :
    Retains final graph known graph.withTemporary known :=
  ⟨(Later.refl tracked).step tracked.withTemporary rfl, subset_rfl⟩

/-- An instruction whose operands are available. -/
theorem extended (retains : Retains final graph known middle other) {instruction : Instruction}
    {target : Slot} {sources : List Slot} (computes : instruction.Computes target sources)
    (reads : ∀ source ∈ sources, source ∈ middle.available final.IsTemporary other) :
    Retains final graph known (middle.extended instruction) other := by
  have covers : middle.Covers other (middle.available final.IsTemporary other)
      (.instruction instruction) :=
    ⟨by simpa [CodeItem.reads, computes.reads] using reads, by simp [CodeItem.targets, computes.targets]⟩
  exact ⟨retains.later.step (retains.later.tracked.extended covers) (size_changed _ _ _),
    retains.keeps.trans (available_subset_extended instruction)⟩

end Retains

/-- The value of an expression is available after its code, together with what was available
before. -/
def Computed (final graph : Graph) (known : BlockId → Set Slot) (slot : Slot) (next : Graph) : Prop :=
  ∃ other, Retains final graph known next other ∧ slot ∈ next.available final.IsTemporary other

theorem computed_constant {value : Int32} (tracked : Tracked final known graph)
    (lowered : constant value graph = .ok (slot, next)) : Computed final graph known slot next := by
  obtain ⟨-, -, rfl, rfl⟩ := constant_eq_ok_iff.mp lowered
  have computes := Instruction.computes_loadConstant graph.symbols.nextKey value
  exact ⟨known, (Retains.withTemporary tracked).extended computes (by simp),
    mem_available_extended computes.writes⟩

theorem computed_lowerStep {op : StepOp} {fixity : Fixity} {operand : Slot}
    (tracked : Tracked final known graph)
    (available : operand ∈ graph.available final.IsTemporary known)
    (lowered : lowerStep op fixity operand graph = .ok (slot, next)) :
    Computed final graph known slot next := by
  obtain ⟨-, -, rfl, rfl⟩ := lowerStep_eq_ok_iff.mp lowered
  have begun := Retains.withTemporary tracked
  have step := Instruction.computes_step op operand
  have copy := Instruction.computes_copy graph.symbols.nextKey operand
  cases fixity with
  | before =>
    have stepped := begun.extended step (by simpa using begun.keeps available)
    exact ⟨known, stepped.extended copy (by simpa using stepped.keeps available),
      mem_available_extended copy.writes⟩
  | after =>
    have copied := begun.extended copy (by simpa using begun.keeps available)
    exact ⟨known, copied.extended step (by simpa using copied.keeps available),
      available_subset_extended _ (mem_available_extended copy.writes)⟩

theorem hasBlock_logicalSplit (op : LogicalOp) (left : Slot) (graph : Graph) :
    (logicalSplit op left graph).HasBlock (logicalSplit op left graph).current :=
  hasBlock_changed.mpr (hasBlock_newKey graph (by cases op <;> simp [logicalTags]))

/-- The first operand of a logical operator decides between two of its blocks, which are promised
everything that is available by then. -/
theorem retains_logicalSplit {op : LogicalOp} {left : Slot} (tracked : Tracked final known graph)
    (available : left ∈ graph.available final.IsTemporary known)
    (within : Within final (logicalSplit op left graph)) :
    ∃ other, Retains final graph known (logicalSplit op left graph) other ∧
      (logicalSplit op left graph).Promises (graph.available final.IsTemporary known)
        (logicalEntries graph) other := by
  have created := (Later.refl tracked).createdAll (graph.available final.IsTemporary known)
    (logicalTags op)
  have promises := promises_createdAll within.of_entered
    (graph.available final.IsTemporary known) known
  rw [map_newKey_logicalTags] at promises
  have available_eq : (graph.createdAll (logicalTags op)).available final.IsTemporary
      (graph.withNew (graph.available final.IsTemporary known) known) =
      graph.available final.IsTemporary known :=
    available_withNew tracked.current _ _
  rw [← available_eq] at available
  have split : Tracked final (graph.withNew (graph.available final.IsTemporary known) known)
      (logicalSplit op left graph) :=
    created.tracked.branched promises (by rw [available_eq]) available (mem_onTrue op graph)
      (mem_onFalse op graph) List.mem_cons_self
  refine ⟨_, ⟨created.step split (size_changed _ _ _), ?_⟩, promises.entered _ _⟩
  exact promises.subset_available List.mem_cons_self _

variable {origin : Graph} {initializer : Option ForInitializer} {ids : List BlockId}
  {test after : Option Expr}

/-- After the second operand of a logical operator its blocks are left in turn. -/
theorem later_joinLogical {slots : Set Slot} {result right : Slot}
    (tracked : Tracked final known graph)
    (promises : graph.Promises slots (logicalEntries origin) known)
    (available : slots ⊆ graph.available final.IsTemporary known)
    (rightAvailable : right ∈ graph.available final.IsTemporary known)
    (joined : joinLogical (logicalBlocks origin) result right graph = .ok next) :
    Later final graph known next known ∧ slots ⊆ next.available final.IsTemporary known := by
  obtain ⟨-, -, rfl⟩ := joinLogical_eq_ok_iff.mp joined
  have isTrue : (logicalBlocks origin).whenTrue ∈ logicalEntries origin := by simp [logicalEntries]
  have isOut : (logicalBlocks origin).out ∈ logicalEntries origin := by simp [logicalEntries]
  have tested := tracked.branched promises available rightAvailable isTrue isOut isTrue
  have testedPromises := promises.entered
    (fun block => { block with
      exitTrue := some (logicalBlocks origin).whenTrue
      exitFalse := some (logicalBlocks origin).out
      test := some right }) (logicalBlocks origin).whenTrue
  have computes := Instruction.computes_loadConstant result 1
  have set := (Retains.refl tested).extended computes (by simp)
  have setPromises := set.later.promises testedPromises
  have setAvailable := (testedPromises.subset_available isTrue _).trans set.keeps
  have out := set.later.tracked.jumped setPromises setAvailable isOut isOut
  refine ⟨(Later.refl tracked).step out ?_, setPromises.subset_available isOut _⟩
  simp [logicalTrue]

theorem computes_operator {op : BinaryOp} {make : Slot → Slot → Slot → Instruction}
    (strict : operator? op = some make) (target left right : Slot) :
    (make target left right).Computes target [left, right] := by
  cases op with
  | arithmetic op =>
    cases strict
    exact Instruction.computes_arithmetic op target left right
  | compare op =>
    cases strict
    exact Instruction.computes_compare op target left right
  | logical op => cases strict

theorem computes_storeInstruction (op : Option ArithmeticOp) (target value : Slot) :
    ∃ sources, (storeInstruction op target value).Computes target sources ∧
      ∀ source ∈ sources, source = target ∨ source = value := by
  cases op with
  | none => exact ⟨[value], Instruction.computes_copy target value, by simp⟩
  | some op => exact ⟨[target, value], Instruction.computes_arithmetic op target target value, by simp⟩

mutual

/-- The value of an expression is available after its code. -/
theorem computed_lowerExpr (value : Expr) {graph next : Graph} {known : BlockId → Set Slot}
    {slot : Slot} (tracked : Tracked final known graph) (tree : value.WellFormed)
    (lowered : lowerExpr defined value graph = .ok (slot, next)) (within : Within final next) :
    Computed final graph known slot next := by
  cases value with
  | literal written =>
    obtain ⟨number, -, filled⟩ := lowerExpr_literal_eq_ok_iff.mp lowered
    exact computed_constant tracked filled
  | identifier name =>
    obtain ⟨found, rfl⟩ := lowerExpr_identifier_eq_ok_iff.mp lowered
    exact ⟨known, .refl tracked, tracked.mem_available_of_lookup? tree found⟩
  | group span inner =>
    rw [lowerExpr] at lowered
    exact computed_lowerExpr inner tracked tree lowered within
  | call span callee arguments =>
    obtain ⟨-, rfl, slots, middle, argumentsLowered, -, rfl⟩ := lowerExpr_call_eq_ok_iff.mp lowered
    have begun := Retains.withTemporary tracked
    obtain ⟨other, passed, available⟩ := computed_lowerArguments arguments begun.later.tracked
      tree.2 argumentsLowered within.of_extended
    have computes := Instruction.computes_call graph.symbols.nextKey
      (callTarget defined callee.name) slots
    exact ⟨other, (begun.trans passed).extended computes available,
      mem_available_extended computes.writes⟩
  | binary span op opSpan left right =>
    rcases exists_operator_or_logical op with ⟨make, strict⟩ | ⟨op, rfl⟩
    · obtain ⟨-, rfl, leftSlot, leftGraph, rightSlot, rightGraph, leftLowered, rightLowered,
        -, rfl⟩ := (lowerExpr_operator_eq_ok_iff strict).mp lowered
      have begun := Retains.withTemporary tracked
      have leftAddition := addition_lowerExpr left begun.later.tracked.current leftLowered
      have rightAddition := addition_lowerExpr right
        (leftAddition.hasBlock_current begun.later.tracked.current) rightLowered
      obtain ⟨between, first, leftAvailable⟩ := computed_lowerExpr left begun.later.tracked
        tree.1 leftLowered (within.of_extended.before rightAddition)
      obtain ⟨other, second, rightAvailable⟩ := computed_lowerExpr right first.later.tracked
        tree.2 rightLowered within.of_extended
      have computes := computes_operator strict graph.symbols.nextKey leftSlot rightSlot
      exact ⟨other, ((begun.trans first).trans second).extended computes
        (by simpa using ⟨second.keeps leftAvailable, rightAvailable⟩),
        mem_available_extended computes.writes⟩
    · obtain ⟨started, leftSlot, leftGraph, rightSlot, rightGraph, begun, leftLowered, -,
        rightLowered, joined⟩ := lowerExpr_logical_eq_ok_iff.mp lowered
      obtain ⟨-, -, next_eq⟩ := joinLogical_eq_ok_iff.mp joined
      obtain ⟨_, zero, zeroAvailable⟩ := computed_constant tracked begun
      have leftAddition := addition_lowerExpr left zero.later.tracked.current leftLowered
      have rightAddition :=
        addition_lowerExpr right (hasBlock_logicalSplit op leftSlot leftGraph) rightLowered
      have rightWithin : Within final rightGraph := by
        rw [next_eq] at within
        exact within.of_entered.of_extended.of_entered
      have splitWithin := rightWithin.before rightAddition
      obtain ⟨_, first, leftAvailable⟩ := computed_lowerExpr left zero.later.tracked
        tree.1 leftLowered splitWithin.of_entered.of_createdAll
      obtain ⟨_, split, promises⟩ :=
        retains_logicalSplit first.later.tracked leftAvailable splitWithin
      obtain ⟨other, second, rightAvailable⟩ := computed_lowerExpr right
        split.later.tracked tree.2 rightLowered rightWithin
      obtain ⟨out, outAvailable⟩ := later_joinLogical second.later.tracked
        (second.later.promises promises) (split.keeps.trans second.keeps) rightAvailable
        joined
      have untilLeft := zero.trans first
      exact ⟨other, ⟨((untilLeft.trans split).trans second).later.trans out,
        untilLeft.keeps.trans outAvailable⟩, outAvailable (first.keeps zeroAvailable)⟩
  | unary span op opSpan operand =>
    obtain ⟨operandSlot, middle, operandLowered, can, -, rfl, rfl⟩ :=
      lowerExpr_unary_eq_ok_iff.mp lowered
    obtain ⟨other, first, available⟩ := computed_lowerExpr operand tracked tree
      operandLowered (within.of_extended.of_extended.before (.withTemporary can))
    have copy := Instruction.computes_copy middle.symbols.nextKey operandSlot
    have unary := Instruction.computes_unary op middle.symbols.nextKey
    have begun := Retains.withTemporary first.later.tracked
    have copied := (first.trans begun).extended copy (by simpa using begun.keeps available)
    exact ⟨other, copied.extended unary (by simpa using mem_available_extended copy.writes),
      mem_available_extended unary.writes⟩
  | step span op fixity target =>
    obtain ⟨operand, found, filled⟩ := lowerExpr_step_eq_ok_iff.mp lowered
    exact computed_lowerStep tracked (tracked.mem_available_of_lookup? tree found) filled
  | assign span target op value =>
    obtain ⟨valueSlot, middle, valueLowered, found, -, rfl⟩ := lowerExpr_assign_eq_ok_iff.mp lowered
    obtain ⟨other, first, available⟩ :=
      computed_lowerExpr value tracked tree.2 valueLowered within.of_extended
    obtain ⟨sources, computes, only⟩ := computes_storeInstruction (op.map Prod.fst) slot valueSlot
    have reads (source : Slot) (member : source ∈ sources) :
        source ∈ middle.available final.IsTemporary other := by
      rcases only source member with rfl | rfl
      · exact first.later.tracked.mem_available_of_lookup? tree.1 found
      · exact available
    exact ⟨other, first.extended computes reads, mem_available_extended computes.writes⟩

theorem computed_lowerArguments (arguments : List Expr) {graph next : Graph}
    {known : BlockId → Set Slot} {slots : List Slot} (tracked : Tracked final known graph)
    (tree : Expr.AllWellFormed arguments)
    (lowered : lowerArguments defined arguments graph = .ok (slots, next))
    (within : Within final next) :
    ∃ other, Retains final graph known next other ∧
      ∀ slot ∈ slots, slot ∈ next.available final.IsTemporary other := by
  cases arguments with
  | nil =>
    cases lowered
    exact ⟨known, .refl tracked, by simp⟩
  | cons first others =>
    obtain ⟨firstSlot, middle, otherSlots, firstLowered, othersLowered, rfl⟩ :=
      lowerArguments_cons_eq_ok_iff.mp lowered
    have firstAddition := addition_lowerExpr first tracked.current firstLowered
    have othersAddition := (builtValues_lowerArguments others
      (firstAddition.hasBlock_current tracked.current) othersLowered).built.addition
    obtain ⟨between, here, available⟩ := computed_lowerExpr first tracked tree.1
      firstLowered (within.before othersAddition)
    obtain ⟨other, rest, othersAvailable⟩ := computed_lowerArguments others here.later.tracked
      tree.2 othersLowered within
    refine ⟨other, here.trans rest, ?_⟩
    rw [List.forall_mem_cons]
    exact ⟨rest.keeps available, othersAvailable⟩

end

/-! ## Declarations -/

/-- The certificate of a graph can be carried on to a later one. -/
def CarriedOn (final graph : Graph) (known : BlockId → Set Slot) (next : Graph) : Prop :=
  ∃ other, Later final graph known next other

theorem Computed.carriedOn (computed : Computed final graph known slot next) :
    CarriedOn final graph known next := by
  obtain ⟨other, retains, -⟩ := computed
  exact ⟨other, retains.later⟩

theorem CarriedOn.trans (carriedOn : CarriedOn final graph known middle)
    (further : ∀ between, Later final graph known middle between →
      CarriedOn final middle between next) : CarriedOn final graph known next := by
  obtain ⟨between, later⟩ := carriedOn
  obtain ⟨other, last⟩ := further between later
  exact ⟨other, later.trans last⟩

theorem carriedOn_lowerDeclarator {declarator : Declarator} (tracked : Tracked final known graph)
    (tree : declarator.WellFormed)
    (lowered : lowerDeclarator defined declarator graph = .ok next) (within : Within final next) :
    CarriedOn final graph known next := by
  obtain ⟨span, name, initializer⟩ := declarator
  have isVariable := isTemporary_of_isWord tree.1
  cases initializer with
  | none =>
    obtain ⟨-, rfl⟩ := lowerDeclarator_none_eq_ok_iff.mp lowered
    exact ⟨known, (Later.refl tracked).step (tracked.declared within isVariable) rfl⟩
  | some value =>
    obtain ⟨can, valueSlot, middle, valueLowered, -, rfl⟩ :=
      lowerDeclarator_some_eq_ok_iff.mp lowered
    have declaredKnown := (Addition.declared can).hasBlock_current tracked.current
    have declared := tracked.declared
      (within.of_extended.before (addition_lowerExpr value declaredKnown valueLowered)) isVariable
    obtain ⟨other, retains, available⟩ :=
      computed_lowerExpr value declared tree.2 valueLowered within.of_extended
    have copied := retains.extended
      (Instruction.computes_copy graph.symbols.nextKey valueSlot) (by simpa using available)
    exact ⟨other, ((Later.refl tracked).step declared rfl).trans copied.later⟩

theorem carriedOn_lowerDeclarators (declarators : List Declarator) {graph next : Graph}
    {known : BlockId → Set Slot} (tracked : Tracked final known graph)
    (tree : ∀ declarator ∈ declarators, declarator.WellFormed)
    (lowered : lowerDeclarators defined declarators graph = .ok next)
    (within : Within final next) : CarriedOn final graph known next := by
  induction declarators generalizing graph known with
  | nil =>
    cases lowered
    exact ⟨known, .refl tracked⟩
  | cons first others ih =>
    rw [List.forall_mem_cons] at tree
    obtain ⟨middle, firstLowered, othersLowered⟩ := lowerDeclarators_cons_eq_ok_iff.mp lowered
    have middleKnown :=
      (built_lowerDeclarator tracked.current firstLowered).hasBlock_current tracked.current
    have middleWithin :=
      within.before (built_lowerDeclarators others middleKnown othersLowered).addition
    refine (carriedOn_lowerDeclarator tracked tree.1 firstLowered middleWithin).trans ?_
    exact fun between later => ih later.tracked tree.2 othersLowered

theorem carriedOn_lowerForInitializer (tracked : Tracked final known graph)
    (tree : ForInitializer.WellFormed initializer)
    (lowered : lowerForInitializer defined initializer graph = .ok next)
    (within : Within final next) : CarriedOn final graph known next := by
  rcases initializer with _ | declarators | value
  · cases lowered
    exact ⟨known, .refl tracked⟩
  · exact carriedOn_lowerDeclarators declarators tracked tree lowered within
  · obtain ⟨slot, valueLowered⟩ := lowerEffect_eq_ok_iff.mp lowered
    exact (computed_lowerExpr value tracked tree valueLowered within).carriedOn

/-! ## Statements -/

/-- The blocks that a loop leads to. -/
def LoopTargets.blocks : Option LoopTargets → List BlockId
  | none => []
  | some targets => [targets.onContinue, targets.onBreak]

theorem LoopTargets.blocks_subset {targets : LoopTargets} (isContinue : targets.onContinue ∈ ids)
    (isBreak : targets.onBreak ∈ ids) :
    LoopTargets.blocks (some targets) ⊆ ids :=
  List.cons_subset.mpr ⟨isContinue, List.cons_subset.mpr ⟨isBreak, List.nil_subset _⟩⟩

theorem hasBlock_entered {change : BasicBlock → BasicBlock} {id : BlockId}
    (isKnown : graph.HasBlock id) :
    ((graph.changed graph.current change).entered id).HasBlock
      ((graph.changed graph.current change).entered id).current :=
  hasBlock_changed.mpr isKnown

theorem mem_newKeys (graph : Graph) (number : Nat) {count : Nat} (isNew : number < count) :
    graph.newKey number ∈ (List.range count).map graph.newKey :=
  List.mem_map_of_mem (List.mem_range.mpr isNew)

/-- A jump out of a statement to a block that promises nothing. -/
theorem carriedOn_jump (tracked : Tracked final known graph) (promises : graph.Promises ∅ ids known)
    {target : BlockId} (isTarget : target ∈ ids) :
    CarriedOn final graph known (graph.extended (.jump target)) := by
  obtain ⟨targetKnown, target_eq⟩ := promises target isTarget
  have covers : graph.Covers known (graph.available final.IsTemporary known)
      (.instruction (.jump target)) := by
    refine ⟨by simp [CodeItem.reads, Instruction.reads, Instruction.jump, Operation.overwrites,
      Operation.changes, Operand.slot?], ?_⟩
    intro other isOther
    obtain rfl : other = target := by
      simpa [CodeItem.targets, Instruction.targets, Instruction.jump, Operand.block?] using isOther
    exact ⟨targetKnown, target_eq ▸ Set.empty_subset _⟩
  exact ⟨known, (Later.refl tracked).step (tracked.extended covers) (size_changed _ _ _)⟩

/-- A return, of a value that is available. -/
theorem later_ret (later : Later final graph known middle other) {value : Option Slot}
    (available : ∀ slot ∈ value, slot ∈ middle.available final.IsTemporary other) :
    Later final graph known (middle.extended (.ret value)) other := by
  have covers : middle.Covers other (middle.available final.IsTemporary other)
      (.instruction (.ret value)) := by
    cases value with
    | none => exact ⟨nofun, nofun⟩
    | some slot =>
      refine ⟨fun read isRead => ?_, nofun⟩
      obtain rfl : read = slot := List.mem_singleton.mp isRead
      exact available read rfl
  exact later.step (later.tracked.extended covers) (size_changed _ _ _)

theorem larger_lowerForTest {blocks : ForBlocks} (isKnown : graph.HasBlock graph.current)
    (lowered : (lowerForTest defined blocks test graph >>= enterBlock blocks.body) = .ok next) :
    Larger graph next ∧ next.current = blocks.body := by
  cases test with
  | none =>
    obtain ⟨-, rfl⟩ := lowerForTest_none_eq_ok_iff.mp lowered
    exact ⟨.entered _ _ graph, rfl⟩
  | some value =>
    obtain ⟨slot, tested, valueLowered, -, rfl⟩ := lowerForTest_some_eq_ok_iff.mp lowered
    exact ⟨(addition_lowerExpr value isKnown valueLowered).larger.trans (.entered _ _ tested), rfl⟩

theorem larger_lowerForAfter (isKnown : after.isSome = true → graph.HasBlock (origin.newKey 2))
    (lowered : lowerForAfter defined (forBlocks origin after) graph = .ok next) :
    Larger graph next := by
  cases after with
  | none =>
    cases lowered
    exact (Addition.refl graph).larger
  | some value =>
    obtain ⟨-, slot, valueLowered⟩ := lowerForAfter_some_eq_ok_iff.mp lowered
    exact (Larger.entered _ _ graph).trans
      (addition_lowerExpr value (hasBlock_entered (isKnown rfl)) valueLowered).larger

/-- Where the body of a `for` statement may jump to. -/
theorem forTargets_subset (graph : Graph) (after : Option Expr) :
    LoopTargets.blocks (some (forBlocks graph after).targets) ⊆
      (List.range (forTags after).length).map graph.newKey := by
  cases after with
  | none =>
    exact LoopTargets.blocks_subset (mem_newKeys graph 0 (by decide))
      (mem_newKeys graph 2 (by decide))
  | some value =>
    exact LoopTargets.blocks_subset (mem_newKeys graph 2 (by simp [forTags]))
      (mem_newKeys graph 3 (by simp [forTags]))

/-- The test of a `for` statement and the start of its body. -/
theorem carriedOn_lowerForTest {blocks : ForBlocks} (tracked : Tracked final known graph)
    (promises : graph.Promises ∅ ids known) (isBody : blocks.body ∈ ids) (isOut : blocks.out ∈ ids)
    (tree : Expr.OptionWellFormed test)
    (lowered : (lowerForTest defined blocks test graph >>= enterBlock blocks.body) = .ok next)
    (within : Within final next) : CarriedOn final graph known next := by
  cases test with
  | none =>
    obtain ⟨-, rfl⟩ := lowerForTest_none_eq_ok_iff.mp lowered
    exact ⟨known, (Later.refl tracked).jumped promises isBody isBody⟩
  | some value =>
    obtain ⟨slot, tested, valueLowered, -, rfl⟩ := lowerForTest_some_eq_ok_iff.mp lowered
    obtain ⟨other, retains, available⟩ := computed_lowerExpr value tracked tree
      valueLowered within.of_entered
    exact ⟨other, retains.later.branched (retains.later.promises promises) available isBody isOut
      isBody⟩

/-- What a `for` statement does after its body. -/
theorem carriedOn_lowerForAfter (tracked : Tracked final known graph)
    (promises : graph.Promises ∅ ids known) (isAfter : after.isSome = true → origin.newKey 2 ∈ ids)
    (tree : Expr.OptionWellFormed after)
    (lowered : lowerForAfter defined (forBlocks origin after) graph = .ok next)
    (within : Within final next) : CarriedOn final graph known next := by
  cases after with
  | none =>
    cases lowered
    exact ⟨known, .refl tracked⟩
  | some value =>
    obtain ⟨-, slot, valueLowered⟩ := lowerForAfter_some_eq_ok_iff.mp lowered
    have entered := (Later.refl tracked).jumped promises (isAfter rfl) (isAfter rfl)
    obtain ⟨other, further⟩ :=
      (computed_lowerExpr value entered.tracked tree valueLowered within).carriedOn
    exact ⟨other, entered.trans further⟩

/-- The code of a statement is certified, wherever it is lowered. -/
def CarriesOn (defined : String → Bool) (final : Graph) (statement : Stmt) : Prop :=
  ∀ ⦃graph next : Graph⦄ ⦃known : BlockId → Set Slot⦄ ⦃loop : Option LoopTargets⦄,
    Tracked final known graph → graph.Promises ∅ (LoopTargets.blocks loop) known →
      statement.WellFormed → lowerStmt defined loop statement graph = .ok next →
        Within final next → CarriedOn final graph known next

section Control

variable {span : Span} {condition : Expr} {positive negative body : Stmt}

theorem carriesOn_ifThen (positiveCarries : CarriesOn defined final positive) :
    CarriesOn defined final (.ifThen span condition positive) := by
  intro graph next known loop tracked loopPromises tree lowered within
  obtain ⟨test, tested, done, conditionLowered, -, positiveLowered, -, rfl⟩ :=
    lowerStmt_ifThen_eq_ok_iff.mp lowered
  have isKey (number : Fin 2) := mem_newKeys tested number number.isLt
  have doneWithin := within.of_entered
  have arm := addition_lowerStmt positive (hasBlock_entered (hasBlock_newKey tested (by decide)))
    positiveLowered
  have createdWithin := (doneWithin.before arm).of_entered
  obtain ⟨between, retains, available⟩ := computed_lowerExpr condition tracked tree.1
    conditionLowered createdWithin.of_createdAll
  rw [← available_withNew retains.later.tracked.current ∅ ["if_true", "if_out"]] at available
  have promises := promises_createdAll createdWithin ∅ between
  have split := (retains.later.createdAll ∅ _).branched promises available (isKey 0) (isKey 1)
    (isKey 0)
  obtain ⟨other, further⟩ := positiveCarries split.tracked
    (split.promises loopPromises) tree.2.1 positiveLowered doneWithin
  exact ⟨other, (split.trans further).jumped (further.promises (promises.entered _ _))
    (isKey 1) (isKey 1)⟩

theorem carriesOn_ifElse (positiveCarries : CarriesOn defined final positive)
    (negativeCarries : CarriesOn defined final negative) :
    CarriesOn defined final (.ifElse span condition positive negative) := by
  intro graph next known loop tracked loopPromises tree lowered within
  obtain ⟨test, tested, done, otherwise, conditionLowered, -, positiveLowered, -,
    negativeLowered, -, rfl⟩ := lowerStmt_ifElse_eq_ok_iff.mp lowered
  have isKey (number : Fin 3) := mem_newKeys tested number number.isLt
  have otherwiseWithin := within.of_entered
  have arm := addition_lowerStmt positive (hasBlock_entered (hasBlock_newKey tested (by decide)))
    positiveLowered
  have doneKnown : done.HasBlock (tested.newKey 1) :=
    arm.hasBlock (hasBlock_changed.mpr (hasBlock_newKey tested (by decide)))
  have otherArm := addition_lowerStmt negative (hasBlock_entered doneKnown) negativeLowered
  have doneWithin := (otherwiseWithin.before otherArm).of_entered
  have createdWithin := (doneWithin.before arm).of_entered
  obtain ⟨between, retains, available⟩ := computed_lowerExpr condition tracked tree.1
    conditionLowered createdWithin.of_createdAll
  rw [← available_withNew retains.later.tracked.current ∅
    ["if_true", "if_false", "if_out"]] at available
  have promises := promises_createdAll createdWithin ∅ between
  have split := (retains.later.createdAll ∅ _).branched promises available (isKey 0) (isKey 1)
    (isKey 0)
  obtain ⟨_, first⟩ := positiveCarries split.tracked
    (split.promises loopPromises) tree.2.1.1 positiveLowered doneWithin
  have firstPromises := first.promises (promises.entered _ _)
  have second := (split.trans first).jumped firstPromises (isKey 2) (isKey 1)
  obtain ⟨other, further⟩ := negativeCarries second.tracked
    (second.promises loopPromises) tree.2.2.1 negativeLowered otherwiseWithin
  exact ⟨other, (second.trans further).jumped (further.promises (firstPromises.entered _ _))
    (isKey 2) (isKey 2)⟩

section

variable (bodyCarries : CarriesOn defined final body)
include bodyCarries

theorem carriesOn_whileLoop : CarriesOn defined final (.whileLoop span condition body) := by
  intro graph next known loop tracked loopPromises tree lowered within
  obtain ⟨test, tested, done, -, conditionLowered, -, bodyLowered, -, rfl⟩ :=
    lowerStmt_whileLoop_eq_ok_iff.mp lowered
  have isKey (number : Fin 3) := mem_newKeys graph number number.isLt
  have doneWithin := within.of_entered
  have evaluated := addition_lowerExpr condition
    (hasBlock_entered (hasBlock_newKey graph (by decide))) conditionLowered
  have testedKnown : tested.HasBlock (graph.newKey 1) :=
    evaluated.hasBlock (hasBlock_changed.mpr (hasBlock_newKey graph (by decide)))
  have arm := addition_lowerStmt body (hasBlock_entered testedKnown) bodyLowered
  have testedWithin := (doneWithin.before arm).of_entered
  have createdWithin := (testedWithin.before evaluated).of_entered
  have promises := promises_createdAll createdWithin ∅ known
  have first := ((Later.refl tracked).createdAll ∅ _).jumped promises (isKey 0) (isKey 0)
  obtain ⟨_, retains, available⟩ := computed_lowerExpr condition first.tracked tree.1
    conditionLowered testedWithin
  have testedPromises := retains.later.promises (promises.entered _ _)
  have split := (first.trans retains.later).branched testedPromises available
    (isKey 1) (isKey 2) (isKey 1)
  obtain ⟨other, further⟩ := bodyCarries split.tracked
    ((testedPromises.entered _ _).subset (LoopTargets.blocks_subset (isKey 0) (isKey 2)))
    tree.2.1 bodyLowered doneWithin
  exact ⟨other, (split.trans further).jumped (further.promises (testedPromises.entered _ _))
    (isKey 0) (isKey 2)⟩

theorem carriesOn_doWhile : CarriesOn defined final (.doWhile span body condition) := by
  intro graph next known loop tracked loopPromises tree lowered within
  obtain ⟨done, test, tested, -, bodyLowered, -, conditionLowered, -, rfl⟩ :=
    lowerStmt_doWhile_eq_ok_iff.mp lowered
  have isKey (number : Fin 3) := mem_newKeys graph number number.isLt
  have testedWithin := within.of_entered
  have arm := addition_lowerStmt body (hasBlock_entered (hasBlock_newKey graph (by decide)))
    bodyLowered
  have doneKnown : done.HasBlock (graph.newKey 1) :=
    arm.hasBlock (hasBlock_changed.mpr (hasBlock_newKey graph (by decide)))
  have evaluated := addition_lowerExpr condition (hasBlock_entered doneKnown) conditionLowered
  have doneWithin := (testedWithin.before evaluated).of_entered
  have createdWithin := (doneWithin.before arm).of_entered
  have promises := promises_createdAll createdWithin ∅ known
  have first := ((Later.refl tracked).createdAll ∅ _).jumped promises (isKey 0) (isKey 0)
  obtain ⟨_, bodyLater⟩ := bodyCarries first.tracked
    ((promises.entered _ _).subset (LoopTargets.blocks_subset (isKey 1) (isKey 2)))
    tree.1.1 bodyLowered doneWithin
  have donePromises := bodyLater.promises (promises.entered _ _)
  have second := (first.trans bodyLater).jumped donePromises (isKey 1) (isKey 1)
  obtain ⟨other, retains, available⟩ := computed_lowerExpr condition second.tracked
    tree.2 conditionLowered testedWithin
  exact ⟨other, (second.trans retains.later).branched
    (retains.later.promises (donePromises.entered _ _)) available (isKey 0) (isKey 2)
    (isKey 2)⟩

theorem carriesOn_forLoop :
    CarriesOn defined final (.forLoop span initializer test after body) := by
  intro graph next known loop tracked loopPromises tree lowered within
  obtain ⟨started, tested, done, ended, outer, begun, -, testLowered, bodyLowered,
    afterLowered, -, left, rfl⟩ := lowerStmt_forLoop_eq_ok_iff.mp lowered
  simp only [forBlocks_test] at testLowered within ⊢
  have length_ge := three_le_length_forTags after
  have isKey (number : Nat) (isNew : number < (forTags after).length) :=
    mem_newKeys started number isNew
  have isBody : (forBlocks started after).body ∈
      (List.range (forTags after).length).map started.newKey := by
    rw [forBlocks_body]
    exact isKey 1 (by omega)
  have isOut : (forBlocks started after).out ∈
      (List.range (forTags after).length).map started.newKey := by
    rw [forBlocks_out]
    exact isKey _ (by omega)
  -- Backwards through the parts: how large the graph was before each of them.
  obtain ⟨testLarger, current_eq⟩ := larger_lowerForTest
    (hasBlock_entered (hasBlock_newKey started (by omega))) testLowered
  have testedKnown (number : Nat) (isNew : number < (forTags after).length) :
      tested.HasBlock (started.newKey number) :=
    testLarger.hasBlock (hasBlock_changed.mpr (hasBlock_newKey started isNew))
  have arm := addition_lowerStmt body
    (by rw [current_eq, forBlocks_body]; exact testedKnown 1 (by omega)) bodyLowered
  have afterLarger := larger_lowerForAfter
    (fun _ => arm.hasBlock (testedKnown 2 (by omega))) afterLowered
  have endedWithin := within.of_inScopes.of_entered
  have doneWithin := endedWithin.earlier afterLarger
  have testedWithin := doneWithin.before arm
  have createdWithin := (testedWithin.earlier testLarger).of_entered
  -- Forwards: the certificate of each part.
  obtain ⟨between, starts⟩ := carriedOn_lowerForInitializer tracked.opened tree.1 begun
    createdWithin.of_createdAll
  have promises := promises_createdAll createdWithin ∅ between
  have first := (starts.createdAll ∅ _).jumped promises (isKey 0 (by omega)) (isKey 0 (by omega))
  obtain ⟨_, decided⟩ := carriedOn_lowerForTest first.tracked (promises.entered _ _) isBody isOut
    tree.2.1 testLowered testedWithin
  have testedPromises := decided.promises (promises.entered _ _)
  obtain ⟨_, bodyLater⟩ := bodyCarries decided.tracked
    (testedPromises.subset (forTargets_subset started after)) tree.2.2.2.1 bodyLowered
    doneWithin
  have donePromises := bodyLater.promises testedPromises
  obtain ⟨other, afterLater⟩ := carriedOn_lowerForAfter bodyLater.tracked donePromises
    (fun _ => isKey 2 (by omega)) tree.2.2.1 afterLowered endedWithin
  have out := (((first.trans decided).trans bodyLater).trans afterLater).jumped
    (afterLater.promises donePromises) (isKey 0 (by omega)) isOut
  exact ⟨other, out.tracked.closed left, out.size_le, out.agrees⟩

end

end Control

mutual

/-- The code of a statement is certified. -/
theorem carriedOn_lowerStmt (statement : Stmt) : CarriesOn defined final statement := by
  intro graph next known loop tracked loopPromises tree lowered within
  cases statement with
  | declaration span declarators =>
    rw [lowerStmt] at lowered
    exact carriedOn_lowerDeclarators declarators tracked tree lowered within
  | expression span value =>
    rw [lowerStmt] at lowered
    obtain ⟨slot, valueLowered⟩ := lowerEffect_eq_ok_iff.mp lowered
    exact (computed_lowerExpr value tracked tree valueLowered within).carriedOn
  | block span statements =>
    obtain ⟨inside, outer, insideLowered, left, rfl⟩ := lowerStmt_block_eq_ok_iff.mp lowered
    obtain ⟨other, later⟩ := carriedOn_lowerStmts statements tracked.opened loopPromises tree
      insideLowered within.of_inScopes
    exact ⟨other, later.tracked.closed left, later.size_le, later.agrees⟩
  | ifThen span condition positive =>
    exact carriesOn_ifThen (carriedOn_lowerStmt positive) tracked loopPromises tree lowered within
  | ifElse span condition positive negative =>
    exact carriesOn_ifElse (carriedOn_lowerStmt positive) (carriedOn_lowerStmt negative) tracked
      loopPromises tree lowered within
  | whileLoop span condition body =>
    exact carriesOn_whileLoop (carriedOn_lowerStmt body) tracked loopPromises tree lowered within
  | doWhile span body condition =>
    exact carriesOn_doWhile (carriedOn_lowerStmt body) tracked loopPromises tree lowered within
  | forLoop span initializer test after body =>
    exact carriesOn_forLoop (carriedOn_lowerStmt body) tracked loopPromises tree lowered within
  | breakLoop span =>
    obtain ⟨targets, rfl, -, rfl⟩ := lowerStmt_breakLoop_eq_ok_iff.mp lowered
    exact carriedOn_jump tracked loopPromises (by simp [LoopTargets.blocks])
  | continueLoop span =>
    obtain ⟨targets, rfl, -, rfl⟩ := lowerStmt_continueLoop_eq_ok_iff.mp lowered
    exact carriedOn_jump tracked loopPromises (by simp [LoopTargets.blocks])
  | returnValue span value =>
    cases value with
    | none =>
      rw [lowerStmt, add_eq_ok_iff] at lowered
      obtain ⟨-, rfl⟩ := lowered
      exact ⟨known, later_ret (.refl tracked) nofun⟩
    | some value =>
      obtain ⟨slot, middle, valueLowered, -, rfl⟩ := lowerStmt_returnValue_some_eq_ok_iff.mp lowered
      obtain ⟨other, retains, available⟩ :=
        computed_lowerExpr value tracked tree valueLowered within.of_extended
      refine ⟨other, later_ret retains.later ?_⟩
      rintro _ ⟨⟩
      exact available
  | empty span =>
    cases lowered
    exact ⟨known, .refl tracked⟩

theorem carriedOn_lowerStmts (statements : List Stmt) {graph next : Graph}
    {known : BlockId → Set Slot} {loop : Option LoopTargets} (tracked : Tracked final known graph)
    (loopPromises : graph.Promises ∅ (LoopTargets.blocks loop) known)
    (tree : Stmt.AllWellFormed statements)
    (lowered : lowerStmts defined loop statements graph = .ok next) (within : Within final next) :
    CarriedOn final graph known next := by
  cases statements with
  | nil =>
    cases lowered
    exact ⟨known, .refl tracked⟩
  | cons first others =>
    obtain ⟨middle, firstLowered, othersLowered⟩ := lowerStmts_cons_eq_ok_iff.mp lowered
    have middleKnown :=
      (addition_lowerStmt first tracked.current firstLowered).hasBlock_current tracked.current
    have middleWithin := within.before (built_lowerStmts others middleKnown othersLowered).addition
    refine (carriedOn_lowerStmt first tracked loopPromises tree.1 firstLowered
      middleWithin).trans fun between later => ?_
    exact carriedOn_lowerStmts others later.tracked (later.promises loopPromises) tree.2
      othersLowered within

end

/-! ## Functions -/

variable {parameters : List Parameter}

theorem Takes.larger (takes : Takes parameters graph next) : Larger graph next := by
  induction takes with
  | nil _ => exact ⟨List.prefix_rfl, Nat.le_refl _⟩
  | cons _ _ _ _ _ ih => exact ⟨(List.prefix_append _ _).trans ih.symbols_extended, ih.size_le⟩

theorem Takes.tracked (takes : Takes parameters graph next) (tracked : Tracked final known graph)
    (within : Within final next) :
    Tracked final known next := by
  induction takes with
  | nil _ => exact tracked
  | cons _ word _ _ rest ih =>
    exact ih (tracked.withParameter (within.earlier rest.larger) (isTemporary_of_isWord word)) within

/-- Nothing is written before the first block of a function. -/
theorem tracked_new (final : Graph) (name : String) : Tracked final (fun _ => ∅) (.new name) :=
  ⟨hasBlock_of_get? rfl, nofun, certified_new name⟩

theorem certified_lowerFunction {function : FunctionDef} {graph : Graph}
    (tree : function.WellFormed) (lowered : lowerFunction defined function = .ok graph) :
    ∃ known, graph.Certified graph.IsTemporary known ∧
      ∀ id, graph.firstBlock? = some id → known id = ∅ := by
  have complete := complete_lowerFunction tree lowered
  obtain ⟨taken, inside, outer, declared, insideLowered, left, rfl⟩ :=
    lowerFunction_eq_ok_iff.mp lowered
  have functionLowered := functionLowered_of_parts tree declared insideLowered left
  have insideWithin : Within (inside.inScopes outer) inside :=
    ⟨⟨List.prefix_rfl, Nat.le_refl _⟩, functionLowered.kept.laid.size_lt, complete.size_le⟩
  have takenKnown : (taken.inScopes taken.scopes.enter).HasBlock taken.current :=
    functionLowered.took.ready.kept.formed.hasBlock_current
  have added := (built_lowerStmts _ takenKnown insideLowered).addition
  have takenWithin : Within (inside.inScopes outer) taken := (insideWithin.before added).of_inScopes
  have takenTracked := (takes_parameters tree declared).tracked
    (tracked_new (inside.inScopes outer) function.name.name) takenWithin
  have noLoop : (taken.inScopes taken.scopes.enter).Promises ∅ (LoopTargets.blocks none)
      (fun _ => ∅) := by
    simp [Promises, LoopTargets.blocks]
  obtain ⟨known, later⟩ := carriedOn_lowerStmts function.body.statements takenTracked.opened noLoop
    tree.body insideLowered insideWithin
  refine ⟨known, later.tracked.certified.beside rfl, fun id isFirst => ?_⟩
  obtain rfl : ⟨0⟩ = id := Option.some.inj (complete.starts.symm.trans isFirst)
  refine later.agrees _ ?_
  have current_eq : taken.current = ⟨0⟩ := functionLowered.took.current_eq
  exact current_eq ▸ takenKnown

end Lowering

/-- On every way through the graph of a function, a temporary is read only after it was written. -/
theorem temporaries_written_before_read {text : List Char} {program : Program}
    {graphs : List Graph} (parsed : parseProgram text = .ok program)
    (lowered : program.lower = .ok graphs) :
    ∀ graph ∈ graphs, ∀ done place item, graph.Path done place →
      graph.itemAt? place = some item → ∀ slot ∈ item.reads, graph.IsTemporary slot →
        ∃ earlier ∈ done, earlier.writes? = some slot := by
  intro graph member done place item path stands slot read isTemporary
  have tree := Program.wellFormed_of_parse parsed
  have all := Lowering.functionLowered_of_lowerFunctions tree lowered
  obtain ⟨function, present, functionLowered, -⟩ := exists_mem_of_forall₂ all member
  obtain ⟨known, certified, begins⟩ :=
    Lowering.certified_lowerFunction (tree function present) functionLowered
  obtain ⟨block, found, itemFound⟩ := Option.bind_eq_some_iff.mp stands
  have available := (certified place.1 block found place.2 item itemFound).reads slot read
  exact certified.written begins path found isTemporary available

/-- The second round of a loop, whose condition reads a temporary that was set some blocks before. -/
theorem temporaries_written_before_read_loop :
    ∃ program graphs graph done place item slot,
      parseProgram "int f(int a,int b)\x7bwhile(a||b)a--;return a;\x7d".toList = .ok program ∧
        program.lower = .ok graphs ∧ graph ∈ graphs ∧ graph.Path done place ∧ done.length = 12 ∧
          graph.itemAt? place = some item ∧ slot ∈ item.reads ∧ graph.IsTemporary slot ∧
            ∃ earlier ∈ done, earlier.writes? = some slot := by
  have evaluated : (parseProgram
      "int f(int a,int b)\x7bwhile(a||b)a--;return a;\x7d".toList).toOption.any (fun program =>
        program.lower.toOption.any fun graphs => graphs.head?.any fun graph =>
          graph.firstBlock? == some ⟨0⟩ &&
            (graph.follow [] (⟨0⟩, 0) [0, 0, 0, 0, 0, 0, 0, 0, 0, 0, 1, 1]).any fun reached =>
              reached.1.length == 12 &&
                (graph.itemAt? reached.2).any fun item => item.reads.any fun slot =>
                  (graph.symbols.get? slot).any fun symbol =>
                    symbol.name == Graph.temporaryName 0) = true := by
    cbv
  obtain ⟨program, parsed, isLowered⟩ := exists_ok_of_any evaluated
  obtain ⟨graphs, lowered, tested⟩ := exists_ok_of_any isLowered
  simp only [Bool.and_eq_true, beq_iff_eq, Option.any_eq_true, List.any_eq_true] at tested
  obtain ⟨graph, isHead, isFirst, ⟨done, place⟩, followed, length_eq, item, stands, slot, read,
    symbol, found, name_eq⟩ := tested
  have member := List.mem_of_mem_head? isHead
  have path := Graph.Path.follow (.start isFirst) followed
  have isTemporary : graph.IsTemporary slot := ⟨symbol, 0, found, name_eq⟩
  exact ⟨program, graphs, graph, done, place, item, slot, parsed, lowered, member, path, length_eq,
    stands, read, isTemporary, temporaries_written_before_read parsed lowered graph member done place
      item path stands slot read isTemporary⟩

end SmallC
