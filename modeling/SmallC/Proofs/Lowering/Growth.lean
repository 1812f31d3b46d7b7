import SmallC.Proofs.Lowering.Faults

/-!
# What lowering does to a graph

Lowering a part of a program only adds to a graph and takes exactly the symbols and blocks of its
footprint.  It enters all blocks that it creates and no other, it leaves the current block without
exits, and it leaves the variables in scope as they were unless it declares some.  Where a graph is
ready for the part, lowering it fails only as that allows.
-/

namespace SmallC.Lowering

open SmallC.Graph

variable {defined : String → Bool} {fails : Fault → Prop} {words others : Prop}
  {total piece rest : Footprint} {graph start next : Graph} {names : List String}
  {ids : List BlockId} {slot : Slot} {op : BinaryOp} {make : Slot → Slot → Slot → Instruction}

/-! ## Values -/

/-- What lowering an expression gives: a slot of a graph that has no more variables in scope than
before. -/
structure BuiltValue (defined : String → Bool) (words : Prop) (footprint : Footprint)
    (graph : Graph) (slot : Slot) (next : Graph) : Prop where
  built : Built defined words footprint [] graph next
  hasSlot : graph.WellFormed → words → next.HasSlot slot

/-- What lowering the arguments of a call gives. -/
structure BuiltValues (defined : String → Bool) (words : Prop) (footprint : Footprint)
    (graph : Graph) (slots : List Slot) (next : Graph) : Prop where
  built : Built defined words footprint [] graph next
  hasSlots : graph.WellFormed → words → ∀ slot ∈ slots, next.HasSlot slot

section Parts

variable (ready : start.Ready fails words total)

include ready

section

variable (building : Building defined words total start names ids (piece + rest) graph)
include building

/-- An expression inside a construct. -/
theorem giving_value (sub : words → others) {lower : Except Fault (Slot × Graph)}
    (lowers : graph.Ready fails others piece →
      Giving fails (BuiltValue defined others piece graph) lower) :
    Giving fails (fun slot next => Building defined words total start names ids rest next ∧
      (start.WellFormed → words → next.HasSlot slot)) lower := by
  refine (lowers (ready.part building sub)).mono fun read value => ⟨?_, fun formed hold => ?_⟩
  · have all := building.andThen value.built fun _ => sub
    rwa [List.append_nil] at all
  · exact value.hasSlot (building.wellFormed formed hold) (sub hold)

/-- Arguments inside a construct. -/
theorem giving_values (sub : words → others) {lower : Except Fault (List Slot × Graph)}
    (lowers : graph.Ready fails others piece →
      Giving fails (BuiltValues defined others piece graph) lower) :
    Giving fails (fun slots next => Building defined words total start names ids rest next ∧
      (start.WellFormed → words → ∀ slot ∈ slots, next.HasSlot slot)) lower := by
  refine (lowers (ready.part building sub)).mono fun read values => ⟨?_, fun formed hold => ?_⟩
  · have all := building.andThen values.built fun _ => sub
    rwa [List.append_nil] at all
  · exact values.hasSlots (building.wellFormed formed hold) (sub hold)

end

section

variable (building : Building defined words total start names ids (.symbol + rest) graph)
include building

theorem giving_constant (value : Int32) :
    Giving fails
      (fun target next => Building defined words total start names ids rest next ∧
        next.HasSlot target) (constant value graph) := by
  rw [constant]
  refine (ready.giving_temporary building).bind ?_
  rintro target started ⟨taken, known⟩
  refine outcome_add_bind (taken.hasBlock_current ready.known) ⟨?_, known⟩
  exact taken.extended fun _ _ => ⟨.loadConstant value known, by rintro ⟨⟩⟩

theorem giving_lowerStep {operand : Slot}
    (operandKnown : start.WellFormed → words → graph.HasSlot operand) (op : StepOp)
    (fixity : Fixity) :
    Giving fails
      (fun target next => Building defined words total start names ids rest next ∧
        next.HasSlot target) (lowerStep op fixity operand graph) := by
  rw [lowerStep]
  refine (ready.giving_temporary building).bind ?_
  rintro target started ⟨taken, known⟩
  have here := taken.hasBlock_current ready.known
  have stays (formed : start.WellFormed) (hold : words) : started.HasSlot operand :=
    taken.hasSlot_of building (by simp) (operandKnown formed hold)
  cases fixity with
  | before =>
    refine outcome_add_bind here (outcome_add_bind (hasBlock_changed.mpr here) ⟨?_, known⟩)
    exact (taken.extended fun formed hold => ⟨.step op (stays formed hold), by rintro ⟨⟩⟩).extended
      fun formed hold => ⟨.copy known (stays formed hold), by rintro ⟨⟩⟩
  | after =>
    refine outcome_add_bind here (outcome_add_bind (hasBlock_changed.mpr here) ⟨?_, known⟩)
    exact (taken.extended fun formed hold => ⟨.copy known (stays formed hold), by rintro ⟨⟩⟩).extended
      fun formed hold => ⟨.step op (stays formed hold), by rintro ⟨⟩⟩

end

end Parts

theorem outcome_value (scoping : ∀ fault, fault.isScoping = true → fails fault)
    (literal : Literal) : Outcome fails (fun _ => True) literal.value := by
  unfold Literal.value IntegerLiteral.value CharLiteral.value
  split
  · split
    · trivial
    · exact scoping _ rfl
  · split
    · trivial
    · exact scoping _ rfl

/-! ## Operators -/

/-- The instruction of an operator is well-formed. -/
theorem wellFormed_operator (strict : operator? op = some make) {target left right : Slot}
    (targetKnown : graph.HasSlot target) (leftKnown : graph.HasSlot left)
    (rightKnown : graph.HasSlot right) :
    (make target left right).WellFormed graph.HasSlot graph.HasBlock := by
  cases op with
  | arithmetic op => cases strict; exact .arithmetic op targetKnown leftKnown rightKnown
  | compare op => cases strict; exact .compare op targetKnown leftKnown rightKnown
  | logical op => cases strict

theorem wellFormed_storeInstruction (op : Option ArithmeticOp) {target value : Slot}
    (targetKnown : graph.HasSlot target) (valueKnown : graph.HasSlot value) :
    (storeInstruction op target value).WellFormed graph.HasSlot graph.HasBlock := by
  cases op with
  | none => exact .copy targetKnown valueKnown
  | some op => exact .arithmetic op targetKnown targetKnown valueKnown

theorem callsWord_operator (strict : operator? op = some make) (target left right : Slot) :
    (make target left right).CallsWord defined := by
  cases op with
  | logical op => cases strict
  | _ => cases strict; exact nofun

theorem callsWord_storeInstruction (op : Option ArithmeticOp) (target value : Slot) :
    (storeInstruction op target value).CallsWord defined := by
  cases op <;> exact nofun

/-- What an operator that always evaluates both operands takes, in order. -/
theorem footprint_operator (strict : operator? op = some make) (span opSpan : Span)
    (left right : Expr) :
    (Expr.binary span op opSpan left right).footprint =
      .symbol + (left.footprint + (right.footprint + 0)) := by
  have no_blocks : Footprint.ofBlocks op.blockCount = 0 := by
    cases op with
    | logical op => cases strict
    | _ => rfl
  rw [Expr.footprint, no_blocks]
  abel

/-! ## Logical operators -/

@[simp]
theorem length_logicalTags (op : LogicalOp) : (logicalTags op).length = 3 := by
  cases op <;> rfl

theorem plainTag_logicalTags (op : LogicalOp) : ∀ tag ∈ logicalTags op, plainTag tag = true := by
  cases op <;> decide

/-- The blocks of a logical operator, in the order in which they are entered. -/
def logicalEntries (graph : Graph) : List BlockId :=
  [(logicalBlocks graph).right, (logicalBlocks graph).whenTrue, (logicalBlocks graph).out]

theorem map_newKey_logicalTags (op : LogicalOp) (graph : Graph) :
    (List.range (logicalTags op).length).map graph.newKey = logicalEntries graph := by
  cases op <;> rfl

theorem mem_onTrue (op : LogicalOp) (graph : Graph) :
    (logicalBlocks graph).onTrue op ∈ logicalEntries graph := by
  cases op <;> simp [logicalEntries, LogicalBlocks.onTrue]

theorem mem_onFalse (op : LogicalOp) (graph : Graph) :
    (logicalBlocks graph).onFalse op ∈ logicalEntries graph := by
  cases op <;> simp [logicalEntries, LogicalBlocks.onFalse]

/-- What a logical operator takes, in order. -/
theorem footprint_logical (op : LogicalOp) (span opSpan : Span) (left right : Expr) :
    (Expr.binary span (.logical op) opSpan left right).footprint =
      .symbol + (left.footprint + (.ofBlocks (logicalTags op).length + (right.footprint + 0))) := by
  rw [Expr.footprint, BinaryOp.blockCount, length_logicalTags]
  abel

section Logical

variable (ready : start.Ready fails words total)

include ready

/-- The blocks of a logical operator and the branch on its left operand. -/
theorem giving_splitLogical {op : LogicalOp} {left : Slot}
    (building : Building defined words total start names []
      (.ofBlocks (logicalTags op).length + rest) graph)
    (leftKnown : start.WellFormed → words → graph.HasSlot left) :
    Giving fails
      (fun blocks next => Building defined words total start names [blocks.whenTrue, blocks.out]
        rest next) (splitLogical op left graph) := by
  have created := building.created (logicalTags op) ready.known
    (map_newKey_logicalTags op graph) (plainTag_logicalTags op)
  have stays (formed : start.WellFormed) (hold : words) :
      (graph.createdAll (logicalTags op)).HasSlot left :=
    created.hasSlot_of building (by simp) (leftKnown formed hold)
  have onTrue := created.known _ (mem_onTrue op graph)
  have onFalse := created.known _ (mem_onFalse op graph)
  rw [splitLogical, createLogicalBlocks_eq]
  cases op with
  | and | or => exact ready.outcome_branch_bind created stays onTrue onFalse fun _ split => split

/-- The branch on the right operand of a logical operator, and the paths brought together. -/
theorem outcome_joinLogical {blocks : LogicalBlocks} {result right : Slot}
    (building : Building defined words total start names [blocks.whenTrue, blocks.out] rest graph)
    (resultKnown : graph.HasSlot result)
    (rightKnown : start.WellFormed → words → graph.HasSlot right) :
    Outcome fails (Building defined words total start names [] rest)
      (joinLogical blocks result right graph) := by
  rw [joinLogical]
  refine ready.outcome_branch_bind building rightKnown (building.known _ (by simp))
    (building.known _ (by simp)) fun isTrue split => ?_
  have resultStays := split.hasSlot_of building (Nat.le_refl _) resultKnown
  refine outcome_add_bind (split.hasBlock_current ready.known) ?_
  have filled := split.extended fun _ _ => ⟨.loadConstant 1 resultStays, by rintro ⟨⟩⟩
  exact ready.outcome_jump filled (filled.known _ (by simp))

end Logical

/-! ## Expressions -/

mutual

/-- What lowering an expression does. -/
theorem giving_lowerExpr (value : Expr) {graph : Graph}
    (ready : graph.Ready fails value.WellFormed value.footprint) :
    Giving fails (BuiltValue defined value.WellFormed value.footprint graph)
      (lowerExpr defined value graph) := by
  have start := ready.building defined
  cases value with
  | literal written =>
    rw [lowerExpr]
    refine (outcome_value ready.scoping written).bind fun number _ => ?_
    exact (giving_constant ready (start.reorder (.symbol + 0) (add_zero _).symm) number).mono
      fun _ ⟨built, known⟩ => ⟨built, fun _ _ => known⟩
  | identifier name =>
    rw [lowerExpr]
    refine (outcome_resolve ready.scoping name.name).bind fun slot found => ?_
    exact ⟨start, fun formed _ => formed.hasSlot_of_lookup? found⟩
  | group span inner =>
    rw [lowerExpr]
    exact giving_lowerExpr inner ready
  | call span callee arguments =>
    have begun := start.reorder (.symbol + (Expr.footprintOfAll arguments + 0))
      (by rw [Expr.footprint, add_zero])
    rw [lowerExpr]
    refine (ready.giving_temporary begun).bind fun target started ⟨taken, known⟩ => ?_
    refine (giving_values ready taken (·.2) (giving_lowerArguments arguments)).bind
      fun slots middle ⟨passed, slotsKnown⟩ => ?_
    have targetKnown := passed.hasSlot_of taken (by simp) known
    refine outcome_add_bind (passed.hasBlock_current ready.known)
      ⟨passed.extended fun formed hold => ⟨.call _ targetKnown (slotsKnown formed hold), ?_⟩,
        fun _ _ => targetKnown⟩
    exact fun _ => ⟨_, callee.name, slots, hold.1, rfl⟩
  | binary span op opSpan left right =>
    rcases exists_operator_or_logical op with ⟨make, strict⟩ | ⟨op, rfl⟩
    · have begun := start.reorder _ (footprint_operator strict span opSpan left right)
      rw [lowerExpr_operator strict]
      refine (ready.giving_temporary begun).bind fun target started ⟨taken, known⟩ => ?_
      refine (giving_value ready taken (·.1) (giving_lowerExpr left)).bind
        fun leftSlot leftGraph ⟨untilLeft, leftKnown⟩ => ?_
      refine (giving_value ready untilLeft (·.2) (giving_lowerExpr right)).bind
        fun rightSlot rightGraph ⟨untilRight, rightKnown⟩ => ?_
      have targetKnown := untilRight.hasSlot_of taken (by simp) known
      refine outcome_add_bind (untilRight.hasBlock_current ready.known)
        ⟨untilRight.extended fun formed hold => ⟨?_, callsWord_operator strict _ _ _⟩,
          fun _ _ => targetKnown⟩
      exact wellFormed_operator strict targetKnown
        (untilRight.hasSlot_of untilLeft (by simp) (leftKnown formed hold))
        (rightKnown formed hold)
    · have begun := start.reorder _ (footprint_logical op span opSpan left right)
      rw [lowerExpr]
      refine (giving_constant ready begun 0).bind fun result started ⟨taken, known⟩ => ?_
      refine (giving_value ready taken (·.1) (giving_lowerExpr left)).bind
        fun leftSlot leftGraph ⟨untilLeft, leftKnown⟩ => ?_
      refine (giving_splitLogical ready untilLeft leftKnown).bind fun blocks split untilSplit => ?_
      refine (giving_value ready untilSplit (·.2) (giving_lowerExpr right)).bind
        fun rightSlot rightGraph ⟨untilRight, rightKnown⟩ => ?_
      have resultKnown := untilRight.hasSlot_of taken (by simp) known
      refine (outcome_joinLogical ready untilRight resultKnown rightKnown).bind fun next built => ?_
      exact ⟨built, fun _ _ => built.hasSlot_of taken (by simp) known⟩
  | unary span op opSpan operand =>
    have begun := start.reorder (operand.footprint + (.symbol + 0))
      (by rw [Expr.footprint, add_zero])
    rw [lowerExpr]
    refine (giving_value ready begun id (giving_lowerExpr operand)).bind
      fun operandSlot middle ⟨evaluated, operandKnown⟩ => ?_
    refine (ready.giving_temporary evaluated).bind fun target started ⟨taken, known⟩ => ?_
    have here := taken.hasBlock_current ready.known
    refine outcome_add_bind here (outcome_add_bind (hasBlock_changed.mpr here)
      ⟨(taken.extended fun formed hold => ⟨.copy known ?_, nofun⟩).extended
        fun _ _ => ⟨.unary op known, nofun⟩, fun _ _ => known⟩)
    exact taken.hasSlot_of evaluated (by simp) (operandKnown formed hold)
  | step span op fixity target =>
    rw [lowerExpr]
    refine (outcome_resolve ready.scoping target.name).bind fun operand found => ?_
    exact (giving_lowerStep ready (start.reorder (.symbol + 0) (add_zero _).symm)
      (fun formed _ => formed.hasSlot_of_lookup? found) op fixity).mono
      fun _ ⟨built, known⟩ => ⟨built, fun _ _ => known⟩
  | assign span target op value =>
    have begun := start.reorder (value.footprint + 0) (by rw [Expr.footprint, add_zero])
    rw [lowerExpr]
    refine (giving_value ready begun (·.2) (giving_lowerExpr value)).bind
      fun valueSlot middle ⟨evaluated, valueKnown⟩ => ?_
    refine (outcome_resolve ready.scoping target.name).bind fun slot found => ?_
    have targetKnown formed hold := (evaluated.wellFormed formed hold).hasSlot_of_lookup? found
    refine outcome_add_bind (evaluated.hasBlock_current ready.known)
      ⟨evaluated.extended fun formed hold => ⟨?_, callsWord_storeInstruction _ _ _⟩, targetKnown⟩
    exact wellFormed_storeInstruction _ (targetKnown formed hold) (valueKnown formed hold)

/-- What lowering the arguments of a call does. -/
theorem giving_lowerArguments (arguments : List Expr) {graph : Graph}
    (ready : graph.Ready fails (Expr.AllWellFormed arguments) (Expr.footprintOfAll arguments)) :
    Giving fails
      (BuiltValues defined (Expr.AllWellFormed arguments) (Expr.footprintOfAll arguments) graph)
      (lowerArguments defined arguments graph) := by
  have start := ready.building defined
  cases arguments with
  | nil => exact ⟨start, by simp⟩
  | cons first others =>
    have begun := start.reorder (first.footprint + (Expr.footprintOfAll others + 0))
      (by rw [Expr.footprintOfAll, add_zero])
    rw [lowerArguments]
    refine (giving_value ready begun (·.1) (giving_lowerExpr first)).bind
      fun slot middle ⟨evaluated, known⟩ => ?_
    refine (giving_values ready evaluated (·.2) (giving_lowerArguments others)).bind
      fun slots next ⟨built, slotsKnown⟩ => ?_
    refine ⟨built, fun formed hold => List.forall_mem_cons.mpr ⟨?_, slotsKnown formed hold⟩⟩
    exact built.hasSlot_of evaluated (by simp) (known formed hold)

end

/-! ## Expressions that were lowered -/

theorem builtValue_lowerExpr (value : Expr) (known : graph.HasBlock graph.current)
    (lowered : lowerExpr defined value graph = .ok (slot, next)) :
    BuiltValue defined value.WellFormed value.footprint graph slot next :=
  (giving_lowerExpr value (ready_of_hasBlock known _ _)).of_eq_ok lowered

theorem builtValues_lowerArguments (arguments : List Expr) {slots : List Slot}
    (known : graph.HasBlock graph.current)
    (lowered : lowerArguments defined arguments graph = .ok (slots, next)) :
    BuiltValues defined (Expr.AllWellFormed arguments) (Expr.footprintOfAll arguments) graph slots
      next :=
  (giving_lowerArguments arguments (ready_of_hasBlock known _ _)).of_eq_ok lowered

theorem addition_lowerExpr (value : Expr) (known : graph.HasBlock graph.current)
    (lowered : lowerExpr defined value graph = .ok (slot, next)) : Addition [] graph next :=
  (builtValue_lowerExpr value known lowered).built.addition

/-- What lowering an expression gives in a well-formed graph. -/
structure Evaluated (graph : Graph) (slot : Slot) (next : Graph) : Prop where
  steps : Steps graph next
  hasSlot : next.HasSlot slot
  named_eq : next.scopes.named = graph.scopes.named

theorem hasSlot_withTemporary (graph : Graph) : graph.withTemporary.HasSlot graph.symbols.nextKey :=
  hasSlot_placed _ graph.nextOffset graph

@[simp]
theorem named_withTemporary (graph : Graph) :
    graph.withTemporary.scopes.named = graph.scopes.named :=
  Scopes.named_declare_temporary _ (isTemporary_temporaryName _) _

theorem evaluated_withTemporary (can : graph.CanTakeTemporary) :
    Evaluated graph graph.symbols.nextKey graph.withTemporary :=
  ⟨.single (.withTemporary can), hasSlot_withTemporary graph, named_withTemporary graph⟩

/-- An instruction after an expression. -/
theorem Evaluated.extended (evaluated : Evaluated graph slot next) {instruction : Instruction}
    (instructionFormed : instruction.WellFormed next.HasSlot next.HasBlock) :
    Evaluated graph slot (next.extended instruction) :=
  ⟨evaluated.steps.tail (.extended instructionFormed), evaluated.hasSlot, evaluated.named_eq⟩

theorem evaluated_constant {value : Int32}
    (lowered : constant value graph = .ok (slot, next)) : Evaluated graph slot next := by
  obtain ⟨can, -, rfl, rfl⟩ := constant_eq_ok_iff.mp lowered
  exact (evaluated_withTemporary can).extended (.loadConstant value (hasSlot_withTemporary graph))

theorem evaluated_lowerExpr (value : Expr) (formed : graph.WellFormed)
    (tree : value.WellFormed) (lowered : lowerExpr defined value graph = .ok (slot, next)) :
    Evaluated graph slot next := by
  obtain ⟨built, hasSlot⟩ := builtValue_lowerExpr value formed.hasBlock_current lowered
  exact ⟨built.steps formed tree, hasSlot formed tree, built.addition.scopes.named_eq⟩

theorem evaluated_lowerArguments (arguments : List Expr) {slots : List Slot}
    (formed : graph.WellFormed) (tree : Expr.AllWellFormed arguments)
    (lowered : lowerArguments defined arguments graph = .ok (slots, next)) :
    Steps graph next ∧ ∀ slot ∈ slots, next.HasSlot slot := by
  obtain ⟨built, hasSlots⟩ := builtValues_lowerArguments arguments formed.hasBlock_current lowered
  exact ⟨built.steps formed tree, hasSlots formed tree⟩

end SmallC.Lowering
