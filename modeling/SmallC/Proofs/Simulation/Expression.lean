import SmallC.Proofs.Simulation.Site
import SmallC.Proofs.Simulation.Slots

/-!
# Expressions on the machine

The code of an expression leads a machine from the place where the code starts to the place where it
ends.  There the slot of the expression holds its value, the slots of variables hold theirs, and no
slot that was there before has changed, except for those of variables that the expression modifies.
-/

namespace SmallC

open Evaluation Execution Lowering SmallC.Graph

-- The equations of the evaluator are used all over this module, so they are made here, once.
attribute [local simp] evalExpr

/-! ## Values and calls -/

namespace Site

variable (site : Site)

/-- A machine at the end of the code of an expression, whose value is in a slot. -/
def GivesValue (slots : Scopes Slot) (graph : Graph) (names : List String) (store : Store)
    (slot : Slot) (next : Graph) (result : Option Int32 × State) (machine : Machine) : Prop :=
  ∃ after, machine = site.atEnd next after result.2.trace ∧
    Follows slots graph names store result.2 after ∧ Holds after result.1 slot

/-- The code between two graphs evaluates an expression into a slot. -/
def Evaluates (slots : Scopes Slot) (value : Expr) (graph : Graph) (slot : Slot) (next : Graph) :
    Prop :=
  ∀ store state, Agrees slots state.scopes store →
    site.world.Simulates site.limit (site.atEnd graph store state.trace)
      (evalExpr site.call value state)
      (site.GivesValue slots graph value.modifies store slot next)

/-- The code between two graphs evaluates expressions into slots. -/
def EvaluatesAll (slots : Scopes Slot) (values : List Expr) (graph : Graph)
    (targets : List Slot) (next : Graph) : Prop :=
  ∀ store state, Agrees slots state.scopes store →
    site.world.Simulates site.limit (site.atEnd graph store state.trace)
      (evalArguments site.call values state) fun result machine =>
        ∃ after, machine = site.atEnd next after result.2.trace ∧
          Follows slots graph (Expr.modifiesOfAll values) store result.2 after ∧
            targets.map after = result.1

end Site

/-- Calls of functions are simulated, where as many arguments are passed as there are
parameters. -/
def CallsFollow (world : World) (program : Program) (call : Caller) (limit : Nat) : Prop :=
  ∀ (active : Activation) (callers : List (Slot × Activation)) (trace : Trace) (block : BasicBlock)
    (target : Slot) (name : String) (arguments : List Slot),
    active.graph.blocks.get? active.block = some block →
    block.instructions[active.index]? =
      some (.call target (callTarget program.defines name) arguments) →
    (∀ function ∈ program.function? name, function.parameters.length = arguments.length) →
    world.Simulates limit (.running active callers trace)
      (call name (arguments.map active.store) trace) fun result machine =>
        ∃ value, (∀ number ∈ result.1, value = number) ∧
          machine = .running (World.resume target active value) callers result.2

/-- Calls of functions are simulated at a site. -/
abbrev Site.CallsFollow (site : Site) (program : Program) : Prop :=
  SmallC.CallsFollow site.world program site.call site.limit

/-- Expressions whose operands and arguments are independent and whose calls pass the right number of
arguments. -/
def Program.Orderly (program : Program) (parts : List Expr) : Prop :=
  ∀ part ∈ parts, part.OrderFree ∧ part.MatchesArity program

/-! ## Values that are used -/

variable {site : Site} {program : Program} {slots : Scopes Slot} {graph next : Graph} {slot : Slot}
  {span : Span}

theorem Execution.World.Simulates.demand {world : World} {limit : Nat} {machine : Machine}
    {outcome : Except Halt (Option Int32 × State)} {goal : Option Int32 × State → Machine → Prop}
    (simulates : world.Simulates limit machine outcome goal) :
    world.Simulates limit machine (outcome >>= demand) fun result =>
      goal (some result.1, result.2) := by
  refine simulates.bind ?_
  rintro ⟨_ | value, state⟩ machine holds
  · trivial
  · exact .ok holds

/-! ## Single instructions -/

theorem step_constant {number : Int32} (filled : constant number graph = .ok (slot, next))
    (steps : Steps next site.final) (store : Store) (trace : Trace) :
    site.world.step (site.atEnd graph store trace) =
      site.atEnd next (Function.update store slot number) trace := by
  obtain ⟨can, known, rfl, rfl⟩ := constant_eq_ok_iff.mp filled
  have startedKnown : graph.withTemporary.HasBlock graph.withTemporary.current := known
  exact step_storing startedKnown steps (perform_loadConstant _ _ _)

theorem evaluates_literal {written : Literal} {number : Int32} (sees : graph.Sees slots)
    (value_eq : written.value = .ok number) (filled : constant number graph = .ok (slot, next))
    (steps : Steps next site.final) : site.Evaluates slots (.literal written) graph slot next := by
  intro store state agrees
  simp only [evalExpr, value_eq]
  refine .of_step (step_constant filled steps store state.trace) (.ok ?_)
  obtain ⟨-, -, rfl, -⟩ := constant_eq_ok_iff.mp filled
  refine ⟨_, rfl, (Follows.refl agrees _).storeNew sees sees.not_hasSlot_nextKey number, ?_⟩
  rintro _ ⟨⟩
  exact Function.update_self ..

theorem evaluates_identifier {name : Ident} (found : slots.lookup? name.name = some slot) :
    site.Evaluates slots (.identifier name) graph slot graph := by
  intro store state agrees
  rw [evalExpr]
  rcases agrees.read found with value_eq | missing
  · rw [value_eq]
    exact .ok ⟨store, rfl, .refl agrees _, by rintro _ ⟨⟩; rfl⟩
  · rw [missing]
    trivial

theorem evaluates_step {op : StepOp} {fixity : Fixity} {target : Ident} {operand : Slot}
    (sees : graph.Sees slots) (found : slots.lookup? target.name = some operand)
    (filled : lowerStep op fixity operand graph = .ok (slot, next)) (steps : Steps next site.final) :
    site.Evaluates slots (.step span op fixity target) graph slot next := by
  intro store state agrees
  obtain ⟨can, known, rfl, rfl⟩ := lowerStep_eq_ok_iff.mp filled
  have startedKnown : graph.withTemporary.HasBlock graph.withTemporary.current := known
  have isNew := sees.not_hasSlot_nextKey
  have different : operand ≠ graph.symbols.nextKey := by
    rintro rfl
    exact isNew (sees.hasSlot_of_lookup? found)
  have modified : target.name ∈ [target.name] := List.mem_singleton_self _
  have unchanged : Follows slots graph [target.name] store state store := .refl agrees _
  have target_known := hasSlot_withTemporary graph
  have operand_known : graph.withTemporary.HasSlot operand :=
    (evaluated_withTemporary can).steps.hasSlot (sees.hasSlot_of_lookup? found)
  rw [evalExpr, Evaluation.step]
  rcases agrees.read found with value_eq | missing
  · rw [value_eq, ok_bind]
    cases fixity with
    | before =>
      obtain ⟨scopes, written, follows⟩ :=
        unchanged.storeNamed sees found modified (op.apply (store operand))
      rw [written]
      refine .of_step (step_storing startedKnown
        (.head (.extended (.copy target_known operand_known)) steps) (perform_step _ _ _)) ?_
      refine .of_step (step_storing (hasBlock_changed.mpr startedKnown) steps
        (perform_copy _ _ _)) (.ok ?_)
      refine ⟨_, rfl, follows.storeNew sees isNew _, ?_⟩
      rintro _ ⟨⟩
      rw [Function.update_self, Function.update_self]
    | after =>
      obtain ⟨scopes, written, follows⟩ := (unchanged.storeNew sees isNew (store operand)).storeNamed
        sees found modified (op.apply (store operand))
      rw [written]
      refine .of_step (step_storing startedKnown
        (.head (.extended (.step op operand_known)) steps) (perform_copy _ _ _)) ?_
      refine .of_step (step_storing (hasBlock_changed.mpr startedKnown) steps
        (perform_step _ _ _)) (.ok ?_)
      rw [Function.update_of_ne different]
      refine ⟨_, rfl, follows, ?_⟩
      rintro _ ⟨⟩
      rw [Function.update_of_ne different.symm, Function.update_self]
  · rw [missing]
    trivial

/-! ## Operators -/

variable {defined : String → Bool} {make : Slot → Slot → Slot → Instruction} {middle : Graph}
  {opSpan : Span} {op : BinaryOp} {right : Expr}

theorem evaluates_unary {op : UnaryOp} {operand : Expr} {operandSlot : Slot}
    (sees : graph.Sees slots) (evaluated : Evaluated graph operandSlot middle)
    (evaluates : site.Evaluates slots operand graph operandSlot middle)
    (steps : Steps ((middle.withTemporary.extended (.copy middle.symbols.nextKey operandSlot)).extended
      (.unary op middle.symbols.nextKey)) site.final) :
    site.Evaluates slots (.unary span op opSpan operand) graph middle.symbols.nextKey
      ((middle.withTemporary.extended (.copy middle.symbols.nextKey operandSlot)).extended
        (.unary op middle.symbols.nextKey)) := by
  intro store state agrees
  have middleSees := sees.evaluated evaluated
  have known : middle.withTemporary.HasBlock middle.withTemporary.current :=
    middleSees.hasBlock_current
  have isNew : ¬graph.HasSlot middle.symbols.nextKey := fun old =>
    middleSees.not_hasSlot_nextKey (evaluated.steps.hasSlot old)
  rw [evalExpr]
  refine (evaluates store state agrees).demand.bind ?_
  rintro ⟨value, later⟩ _ ⟨after, rfl, follows, holds⟩
  refine .of_step (step_storing known
    (.head (.extended (.unary op (hasSlot_withTemporary middle))) steps) (perform_copy _ _ _)) ?_
  refine .of_step (step_storing (hasBlock_changed.mpr known) steps (perform_unary _ _ _)) (.ok ?_)
  refine ⟨_, rfl, (follows.storeNew sees isNew _).storeNew sees isNew _, ?_⟩
  rintro _ ⟨⟩
  rw [Function.update_self, Function.update_self, holds value rfl]

section

variable (strict : operator? op = some make)
include strict

/-- What an operator that evaluates both operands means, in an evaluation and on the machine. -/
theorem exists_meaning (call : Caller) :
    ∃ apply : Int32 → Int32 → Option Int32,
      (∀ span opSpan left right state, evalExpr call (.binary span op opSpan left right) state = do
        let (leftValue, state) ← evalExpr call left state >>= demand
        let (rightValue, state) ← evalExpr call right state >>= demand
        let value ← state.checked (apply leftValue rightValue)
        return (some value, state)) ∧
      ∀ store target left right,
        perform store (make target left right) =
          some (storing store target (apply (store left) (store right))) := by
  cases op with
  | arithmetic op =>
    cases strict
    exact ⟨op.apply, fun _ _ _ _ _ => by rw [evalExpr], fun _ _ _ _ => rfl⟩
  | compare op =>
    cases strict
    exact ⟨fun left right => some (op.apply left right), fun _ _ _ _ _ => by rw [evalExpr]; rfl,
      fun _ _ _ _ => rfl⟩
  | logical op => cases strict

theorem orderFree_of_operator? {left : Expr}
    (orderFree : (Expr.binary span op opSpan left right).OrderFree) : left.Independent right := by
  cases op with
  | logical op => cases strict
  | _ => exact orderFree

theorem evaluates_operator {left : Expr} {leftSlot rightSlot : Slot} {leftGraph rightGraph : Graph}
    (sees : graph.Sees slots) (can : graph.CanTakeTemporary)
    (leftEvaluated : Evaluated graph.withTemporary leftSlot leftGraph)
    (leftEvaluates : site.Evaluates slots left graph.withTemporary leftSlot leftGraph)
    (leftSlotOf : SlotOf slots graph.withTemporary left leftSlot)
    (independent : left.Independent right)
    (rightEvaluated : Evaluated leftGraph rightSlot rightGraph)
    (rightEvaluates : site.Evaluates slots right leftGraph rightSlot rightGraph)
    (steps : Steps (rightGraph.extended (make graph.symbols.nextKey leftSlot rightSlot))
      site.final) :
    site.Evaluates slots (.binary span op opSpan left right) graph graph.symbols.nextKey
      (rightGraph.extended (make graph.symbols.nextKey leftSlot rightSlot)) := by
  intro store state agrees
  obtain ⟨apply, eval_eq, perform_eq⟩ := exists_meaning strict site.call
  have started := evaluated_withTemporary can
  have startedSees := sees.evaluated started
  have rightSees := (startedSees.evaluated leftEvaluated).evaluated rightEvaluated
  rw [eval_eq]
  refine (leftEvaluates store state agrees).demand.bind ?_
  rintro ⟨leftValue, leftState⟩ _ ⟨leftStore, rfl, leftFollows, leftHolds⟩
  refine (rightEvaluates leftStore leftState leftFollows.agrees).demand.bind ?_
  rintro ⟨rightValue, rightState⟩ _ ⟨rightStore, rfl, rightFollows, rightHolds⟩
  -- The right operand leaves the value of the left one where it is.
  have leftKept : rightStore leftSlot = leftValue :=
    (rightFollows.keeps leftSlot leftEvaluated.hasSlot
      (leftSlotOf.untouched startedSees independent.2)).trans (leftHolds leftValue rfl)
  have follows := ((Follows.refl agrees []).trans leftFollows started.steps).trans rightFollows
    (started.steps.trans leftEvaluated.steps)
  have performed := perform_eq rightStore graph.symbols.nextKey leftSlot rightSlot
  rw [leftKept, rightHolds rightValue rfl] at performed
  refine (simulates_checked rightSees.hasBlock_current steps performed).bind ?_
  rintro value _ rfl
  refine .ok ⟨_, rfl, follows.storeNew sees sees.not_hasSlot_nextKey value, ?_⟩
  rintro _ ⟨⟩
  exact Function.update_self ..

end

theorem evaluates_assign {target : Ident} {op : Option (ArithmeticOp × Span)} {value : Expr}
    {valueSlot : Slot} (sees : graph.Sees slots) (evaluated : Evaluated graph valueSlot middle)
    (evaluates : site.Evaluates slots value graph valueSlot middle)
    (found : slots.lookup? target.name = some slot)
    (steps : Steps (middle.extended (storeInstruction (op.map Prod.fst) slot valueSlot))
      site.final) :
    site.Evaluates slots (.assign span target op value) graph slot
      (middle.extended (storeInstruction (op.map Prod.fst) slot valueSlot)) := by
  intro store state agrees
  have known := (sees.evaluated evaluated).hasBlock_current
  rw [evalExpr]
  refine (evaluates store state agrees).demand.bind ?_
  rintro ⟨number, later⟩ _ ⟨after, rfl, follows, holds⟩
  have moreFollows : Follows slots graph (target.name :: value.modifies) store later after :=
    follows.mono fun name member => List.mem_cons_of_mem _ member
  have modified : target.name ∈ target.name :: value.modifies := List.mem_cons_self
  have storesResult : site.world.Simulates site.limit (site.atEnd middle after later.trace)
      (stored (op.map Prod.fst) target.name number later) fun result machine =>
        machine = site.atEnd (middle.extended (storeInstruction (op.map Prod.fst) slot valueSlot))
          (Function.update after slot result) later.trace := by
    cases op with
    | none =>
      have performed := perform_copy after slot valueSlot
      rw [holds number rfl] at performed
      exact .of_step (step_storing known steps performed) (.ok rfl)
    | some op =>
      rcases follows.agrees.read found with old_eq | missing
      · simp only [Option.map_some, stored, old_eq, ok_bind]
        have performed := perform_arithmetic after slot op.1 slot valueSlot
        rw [holds number rfl] at performed
        exact simulates_checked known steps performed
      · simp only [Option.map_some, stored, missing]
        trivial
  refine storesResult.bind ?_
  rintro result _ rfl
  obtain ⟨scopes, written, written_follows⟩ := moreFollows.storeNamed sees found modified result
  rw [written]
  refine .ok ⟨_, rfl, written_follows, ?_⟩
  rintro _ ⟨⟩
  exact Function.update_self ..

/-! ## Links between blocks -/

namespace Graph

/-- Whether a graph with some new blocks can jump to a block and enter another. -/
structure CanJump (tags : List String) (target id : BlockId) (graph : Graph) : Prop where
  targetKnown : (graph.createdAll tags).HasBlock target
  idKnown : (graph.createdAll tags).HasBlock id
  can : (graph.createdAll tags).CanEnter id

/-- Whether a graph with some new blocks can branch on a slot and enter a block. -/
structure CanBranch (tags : List String) (test : Slot) (onTrue onFalse id : BlockId)
    (graph : Graph) : Prop where
  testKnown : graph.HasSlot test
  onTrueKnown : (graph.createdAll tags).HasBlock onTrue
  onFalseKnown : (graph.createdAll tags).HasBlock onFalse
  idKnown : (graph.createdAll tags).HasBlock id
  can : (graph.createdAll tags).CanEnter id

variable {tags : List String} {test : Slot} {target onTrue onFalse id : BlockId}

theorem Sees.createdAll (sees : graph.Sees slots) (tags : List String) :
    (graph.createdAll tags).Sees slots :=
  sees.steps (steps_createdAll tags graph) (by rw [createdAll_scopes])

section

variable (jump : graph.CanJump tags target id)
include jump

theorem CanJump.steps : Steps graph ((graph.createdAll tags).jumped target id) :=
  ((steps_createdAll tags graph).tail (.jumping jump.targetKnown)).tail
    (.entered (hasBlock_changed.mpr jump.idKnown) jump.can.waits)

theorem CanJump.sees (sees : graph.Sees slots) :
    ((graph.createdAll tags).jumped target id).Sees slots :=
  sees.steps jump.steps (by simp)

theorem CanJump.jumpsTo (sees : graph.Sees slots)
    (steps : Steps ((graph.createdAll tags).jumped target id) site.final) :
    site.JumpsTo graph target :=
  (jumpsTo_jumped (sees.createdAll tags).formed jump.targetKnown jump.idKnown jump.can
    steps).of_createdAll sees.hasBlock_current

theorem CanJump.opens (sees : graph.Sees slots) :
    site.Opens ((graph.createdAll tags).jumped target id) id :=
  opens_entered (sees.createdAll tags).formed (.jumping jump.targetKnown) jump.can.waits

end

section

variable (branch : graph.CanBranch tags test onTrue onFalse id)
include branch

theorem CanBranch.createdTestKnown : (graph.createdAll tags).HasSlot test :=
  (steps_createdAll tags graph).hasSlot branch.testKnown

theorem CanBranch.steps : Steps graph ((graph.createdAll tags).branched test onTrue onFalse id) :=
  ((steps_createdAll tags graph).tail
    (.branching branch.createdTestKnown branch.onTrueKnown branch.onFalseKnown)).tail
      (.entered (hasBlock_changed.mpr branch.idKnown) branch.can.waits)

theorem CanBranch.sees (sees : graph.Sees slots) :
    ((graph.createdAll tags).branched test onTrue onFalse id).Sees slots :=
  sees.steps branch.steps (by simp)

theorem CanBranch.branchesTo (sees : graph.Sees slots)
    (steps : Steps ((graph.createdAll tags).branched test onTrue onFalse id) site.final) :
    site.BranchesTo graph test onTrue onFalse :=
  (branchesTo_branched (sees.createdAll tags).formed branch.createdTestKnown branch.onTrueKnown
    branch.onFalseKnown branch.idKnown branch.can steps).of_createdAll sees.hasBlock_current

theorem CanBranch.opens (sees : graph.Sees slots) :
    site.Opens ((graph.createdAll tags).branched test onTrue onFalse id) id :=
  opens_entered (sees.createdAll tags).formed
    (.branching branch.createdTestKnown branch.onTrueKnown branch.onFalseKnown) branch.can.waits

end

end Graph

/-! ## Logical operators -/

/-- The branch on the left operand of a logical operator. -/
theorem canBranch_logicalSplit {op : LogicalOp} {left : Slot} (leftKnown : graph.HasSlot left)
    (can : (graph.createdAll (logicalTags op)).CanEnter (logicalBlocks graph).right) :
    graph.CanBranch (logicalTags op) left ((logicalBlocks graph).onTrue op)
      ((logicalBlocks graph).onFalse op) (logicalBlocks graph).right := by
  have known (id : BlockId) (member : id ∈ logicalEntries graph) :
      (graph.createdAll (logicalTags op)).HasBlock id := by
    rw [← map_newKey_logicalTags op] at member
    exact hasBlock_createdAll member
  exact ⟨leftKnown, known _ (mem_onTrue op graph), known _ (mem_onFalse op graph),
    known _ List.mem_cons_self, can⟩

/-- How a machine leaves the code of the right operand of a logical operator: from a true operand to
the block where the result becomes one, and from there, like from a false one, to the last block. -/
structure JoinsLogical (site : Site) (blocks : LogicalBlocks) (result right : Slot)
    (graph next : Graph) : Prop where
  branches : site.BranchesTo graph right blocks.whenTrue blocks.out
  isTrue : ∀ store trace,
    site.world.step (site.world.step (site.atStart blocks.whenTrue store trace)) =
      site.atStart blocks.out (Function.update store result 1) trace
  opens : site.Opens next blocks.out

theorem joinsLogical_of_joinLogical {blocks : LogicalBlocks} {result right : Slot}
    (sees : graph.Sees slots) (resultKnown : graph.HasSlot result)
    (rightKnown : graph.HasSlot right) (whenTrue : graph.HasBlock blocks.whenTrue)
    (out : graph.HasBlock blocks.out) (joined : joinLogical blocks result right graph = .ok next)
    (steps : Steps next site.final) :
    JoinsLogical site blocks result right graph next ∧ Steps graph site.final := by
  obtain ⟨canTrue, canOut, rfl⟩ := joinLogical_eq_ok_iff.mp joined
  have branch : graph.CanBranch [] right blocks.whenTrue blocks.out blocks.whenTrue :=
    ⟨rightKnown, whenTrue, out, whenTrue, canTrue⟩
  have filled : Step (graph.branched right blocks.whenTrue blocks.out blocks.whenTrue)
      (logicalTrue blocks result right graph) :=
    .extended (.loadConstant 1 resultKnown)
  have trueSees : (logicalTrue blocks result right graph).Sees slots :=
    (branch.sees sees).steps (.single filled) rfl
  have trueKept : Steps graph (logicalTrue blocks result right graph) := branch.steps.tail filled
  have outKnown := trueKept.hasBlock out
  have jump : (logicalTrue blocks result right graph).CanJump [] blocks.out blocks.out :=
    ⟨outKnown, outKnown, canOut⟩
  have trueSteps := jump.steps.trans steps
  refine ⟨⟨branch.branchesTo sees (.head filled trueSteps), ?isTrue, jump.opens trueSees⟩,
    branch.steps.trans (.head filled trueSteps)⟩
  case isTrue =>
    intro store trace
    rw [← branch.opens sees, step_storing (branch.sees sees).hasBlock_current trueSteps
      (perform_loadConstant _ _ _)]
    exact jump.jumpsTo trueSees steps _ _

theorem evaluates_logical {op : LogicalOp} {left : Expr} {started leftGraph rightGraph : Graph}
    {leftSlot rightSlot : Slot} (sees : graph.Sees slots)
    (begun : constant 0 graph = .ok (slot, started))
    (leftEvaluated : Evaluated started leftSlot leftGraph)
    (leftEvaluates : site.Evaluates slots left started leftSlot leftGraph)
    (can : (leftGraph.createdAll (logicalTags op)).CanEnter (logicalBlocks leftGraph).right)
    (rightEvaluated : Evaluated (logicalSplit op leftSlot leftGraph) rightSlot
      rightGraph)
    (rightEvaluates : site.Evaluates slots right (logicalSplit op leftSlot leftGraph) rightSlot
      rightGraph)
    (joins : JoinsLogical site (logicalBlocks leftGraph) slot rightSlot rightGraph next)
    (steps : Steps rightGraph site.final) :
    site.Evaluates slots (.binary span (.logical op) opSpan left right) graph slot next := by
  intro store state agrees
  have startEvaluated := evaluated_constant begun
  have startedSees := sees.evaluated startEvaluated
  have leftSees := startedSees.evaluated leftEvaluated
  have split := canBranch_logicalSplit leftEvaluated.hasSlot can
  have splitSteps := rightEvaluated.steps.trans steps
  have isNew : ¬graph.HasSlot slot := by
    obtain ⟨-, -, rfl, -⟩ := constant_eq_ok_iff.mp begun
    exact sees.not_hasSlot_nextKey
  have untouched (names : List String) : ∀ name ∈ names, slots.lookup? name ≠ some slot :=
    fun name _ found => isNew (sees.hasSlot_of_lookup? found)
  rw [evalExpr]
  refine .of_step (step_constant begun
    (leftEvaluated.steps.trans (split.steps.trans splitSteps)) store state.trace) ?_
  have begunFollows := (Follows.refl agrees []).storeNew sees isNew 0
  refine (leftEvaluates _ state begunFollows.agrees).demand.bind ?_
  rintro ⟨leftValue, leftState⟩ _ ⟨leftStore, rfl, leftFollows, leftHolds⟩
  have leftZero : leftStore slot = 0 :=
    (leftFollows.keeps _ startEvaluated.hasSlot (untouched _)).trans (Function.update_self ..)
  have untilLeft := begunFollows.trans leftFollows startEvaluated.steps
  have onlyLeft : Follows slots graph (left.modifies ++ right.modifies) store leftState leftStore :=
    untilLeft.mono fun name member => List.mem_append_left _ member
  have branches := split.branchesTo leftSees splitSteps
  -- Where the left operand does not decide, the right one does.
  have continues : site.world.Simulates site.limit
      (site.atStart (logicalBlocks leftGraph).right leftStore leftState.trace) (do
        let (rightValue, state) ← evalExpr site.call right leftState >>= demand
        return (some (truth (rightValue != 0)), state))
      (site.GivesValue slots graph (left.modifies ++ right.modifies) store slot next) := by
    rw [← split.opens leftSees]
    refine (rightEvaluates leftStore leftState leftFollows.agrees).demand.bind ?_
    rintro ⟨rightValue, rightState⟩ _ ⟨rightStore, rfl, rightFollows, rightHolds⟩
    have rightZero : rightStore slot = 0 :=
      (rightFollows.keeps _ (split.steps.hasSlot (leftEvaluated.steps.hasSlot startEvaluated.hasSlot))
        (untouched _)).trans leftZero
    have both := untilLeft.trans rightFollows
      (startEvaluated.steps.trans (leftEvaluated.steps.trans split.steps))
    refine .of_step (joins.branches rightStore rightState.trace) ?_
    rw [rightHolds rightValue rfl]
    by_cases isZero : rightValue = 0
    · simp only [isZero, if_true]
      exact .ok ⟨rightStore, (joins.opens _ _).symm, both, by rintro _ ⟨⟩; exact rightZero⟩
    · simp only [isZero, if_false]
      refine .of_step rfl (.of_step (joins.isTrue _ _) (.ok ?_))
      refine ⟨_, (joins.opens _ _).symm, both.storeNew sees isNew 1, ?_⟩
      simp [Holds, truth, isZero]
  refine .of_step (branches leftStore leftState.trace) ?_
  rw [leftHolds leftValue rfl]
  cases op with
  | and =>
    by_cases isZero : leftValue = 0
    · simp only [isZero, LogicalOp.decided?, if_true]
      exact .ok ⟨leftStore, (joins.opens _ _).symm, onlyLeft, by rintro _ ⟨⟩; exact leftZero⟩
    · simp only [isZero, LogicalOp.decided?, if_false]
      exact continues
  | or =>
    by_cases isZero : leftValue = 0
    · simp only [isZero, LogicalOp.decided?, if_true]
      exact continues
    · simp only [isZero, LogicalOp.decided?, if_false]
      refine .of_step rfl (.of_step (joins.isTrue _ _) (.ok ?_))
      refine ⟨_, (joins.opens _ _).symm, onlyLeft.storeNew sees isNew 1, ?_⟩
      rintro _ ⟨⟩
      exact Function.update_self ..

/-! ## Calls -/

theorem length_lowerArguments (arguments : List Expr) {graph next : Graph} {targets : List Slot}
    (lowered : lowerArguments defined arguments graph = .ok (targets, next)) :
    targets.length = arguments.length := by
  induction arguments generalizing graph targets with
  | nil =>
    cases lowered
    rfl
  | cons first others ih =>
    obtain ⟨firstSlot, middle, otherSlots, -, othersLowered, rfl⟩ :=
      lowerArguments_cons_eq_ok_iff.mp lowered
    rw [List.length_cons, List.length_cons, ih othersLowered]

theorem exists_mem_of_mem_modifiesOfAll {name : String} {values : List Expr}
    (member : name ∈ Expr.modifiesOfAll values) : ∃ value ∈ values, name ∈ value.modifies := by
  induction values with
  | nil => cases member
  | cons first others ih =>
    rcases List.mem_append.mp member with inFirst | inOthers
    · exact ⟨first, List.mem_cons_self, inFirst⟩
    · obtain ⟨value, present, modified⟩ := ih inOthers
      exact ⟨value, List.mem_cons_of_mem _ present, modified⟩

theorem evaluatesAll_cons {first : Expr} {others : List Expr} {targets : List Slot}
    (sees : graph.Sees slots) (evaluated : Evaluated graph slot middle)
    (evaluates : site.Evaluates slots first graph slot middle)
    (slotOf : SlotOf slots graph first slot)
    (independent : ∀ other ∈ others, first.Independent other)
    (evaluatesOthers : site.EvaluatesAll slots others middle targets next) :
    site.EvaluatesAll slots (first :: others) graph (slot :: targets) next := by
  intro store state agrees
  rw [evalArguments]
  refine (evaluates store state agrees).demand.bind ?_
  rintro ⟨value, later⟩ _ ⟨firstStore, rfl, firstFollows, holds⟩
  refine (evaluatesOthers firstStore later firstFollows.agrees).bind ?_
  rintro ⟨values, last⟩ _ ⟨after, rfl, otherFollows, values_eq⟩
  -- The other arguments leave the value of the first one where it is.
  have untouched := slotOf.untouched sees fun name member => by
    obtain ⟨other, present, modified⟩ := exists_mem_of_mem_modifiesOfAll member
    exact (independent other present).2 name modified
  have kept : after slot = value :=
    (otherFollows.keeps slot evaluated.hasSlot untouched).trans (holds value rfl)
  exact .ok ⟨after, rfl, firstFollows.trans otherFollows evaluated.steps, by
    rw [List.map_cons, kept, values_eq]⟩

theorem evaluates_call {callee : Ident} {arguments : List Expr} {targets : List Slot}
    (calls : site.CallsFollow program) (sees : graph.Sees slots) (can : graph.CanTakeTemporary)
    (lowered : lowerArguments program.defines arguments graph.withTemporary = .ok (targets, middle))
    (evaluates : site.EvaluatesAll slots arguments graph.withTemporary targets middle)
    (matchesArity : (Expr.call span callee arguments).MatchesArity program)
    (known : middle.HasBlock middle.current)
    (steps : Steps (middle.extended
      (.call graph.symbols.nextKey (callTarget program.defines callee.name) targets)) site.final) :
    site.Evaluates slots (.call span callee arguments) graph graph.symbols.nextKey
      (middle.extended
        (.call graph.symbols.nextKey (callTarget program.defines callee.name) targets)) := by
  intro store state agrees
  have started := evaluated_withTemporary can
  rw [evalExpr]
  refine (evaluates store state agrees).bind ?_
  rintro ⟨values, later⟩ _ ⟨middleStore, rfl, argumentsFollow, values_eq⟩
  obtain rfl : targets.map middleStore = values := values_eq
  have follows := (Follows.refl agrees []).trans argumentsFollow started.steps
  obtain ⟨block, found, fetched⟩ := instruction_of_steps known steps
  have arity : ∀ function ∈ program.function? callee.name,
      function.parameters.length = targets.length := fun function member => by
    rw [length_lowerArguments arguments lowered, matchesArity function member]
  refine (calls ⟨site.final, middle.current, middle.position, middleStore⟩ site.callers later.trace
    block _ _ _ found fetched arity).bind ?_
  rintro ⟨result, trace⟩ _ ⟨value, isResult, rfl⟩
  refine .ok ⟨Function.update middleStore graph.symbols.nextKey value, ?_,
    { follows.storeNew sees sees.not_hasSlot_nextKey value with }, ?_⟩
  · simp only [Site.atEnd, World.resume, Activation.advance, position_extended known,
      changed_current]
  · intro number isNumber
    rw [Function.update_self, isResult number isNumber]

/-! ## All expressions -/

mutual

/-- The code of an expression evaluates it. -/
theorem evaluates_lowerExpr (value : Expr) {graph next : Graph} {slot : Slot}
    (calls : site.CallsFollow program) (sees : graph.Sees slots) (tree : value.WellFormed)
    (orderly : program.Orderly value.parts)
    (lowered : lowerExpr program.defines value graph = .ok (slot, next))
    (steps : Steps next site.final) : site.Evaluates slots value graph slot next := by
  cases value with
  | literal written =>
    obtain ⟨number, value_eq, filled⟩ := lowerExpr_literal_eq_ok_iff.mp lowered
    exact evaluates_literal sees value_eq filled steps
  | identifier name =>
    obtain ⟨found, rfl⟩ := lowerExpr_identifier_eq_ok_iff.mp lowered
    rw [sees.lookup?_eq tree] at found
    exact evaluates_identifier found
  | group span inner =>
    rw [lowerExpr] at lowered
    rw [Expr.parts, Program.Orderly, List.forall_mem_cons] at orderly
    have inside := evaluates_lowerExpr inner calls sees tree orderly.2 lowered steps
    rwa [Site.Evaluates, Expr.modifies]
  | call span callee arguments =>
    obtain ⟨can, rfl, targets, middle, argumentsLowered, known, rfl⟩ :=
      lowerExpr_call_eq_ok_iff.mp lowered
    rw [Expr.parts, Program.Orderly, List.forall_mem_cons] at orderly
    obtain ⟨⟨orderFree, matchesArity⟩, argumentsOrderly⟩ := orderly
    have started := evaluated_withTemporary can
    have startedSees := sees.evaluated started
    obtain ⟨argumentSteps, targetsKnown⟩ :=
      evaluated_lowerArguments arguments startedSees.formed tree.2 argumentsLowered
    have middleSteps : Steps middle site.final :=
      .head (.extended (.call _ (argumentSteps.hasSlot started.hasSlot) targetsKnown)) steps
    exact evaluates_call calls sees can argumentsLowered
      (evaluates_lowerArguments arguments calls startedSees tree.2 argumentsOrderly orderFree
        argumentsLowered middleSteps) matchesArity known steps
  | binary span op opSpan left right =>
    rw [Expr.parts, Program.Orderly, List.forall_mem_cons, List.forall_mem_append] at orderly
    obtain ⟨⟨orderFree, -⟩, leftOrderly, rightOrderly⟩ := orderly
    rcases exists_operator_or_logical op with ⟨make, strict⟩ | ⟨op, rfl⟩
    · obtain ⟨can, rfl, leftSlot, leftGraph, rightSlot, rightGraph, leftLowered, rightLowered,
        -, rfl⟩ := (lowerExpr_operator_eq_ok_iff strict).mp lowered
      have started := evaluated_withTemporary can
      have startedSees := sees.evaluated started
      have leftEvaluated := evaluated_lowerExpr left startedSees.formed tree.1 leftLowered
      have leftSees := startedSees.evaluated leftEvaluated
      have rightEvaluated := evaluated_lowerExpr right leftSees.formed tree.2 rightLowered
      have rightSteps : Steps rightGraph site.final :=
        .head (.extended (wellFormed_operator strict
          (rightEvaluated.steps.hasSlot (leftEvaluated.steps.hasSlot started.hasSlot))
          (rightEvaluated.steps.hasSlot leftEvaluated.hasSlot) rightEvaluated.hasSlot)) steps
      exact evaluates_operator strict sees can leftEvaluated
        (evaluates_lowerExpr left calls startedSees tree.1 leftOrderly leftLowered
          (rightEvaluated.steps.trans rightSteps))
        (slotOf_lowerExpr left startedSees tree.1 leftLowered)
        (orderFree_of_operator? strict orderFree) rightEvaluated
        (evaluates_lowerExpr right calls leftSees tree.2 rightOrderly rightLowered rightSteps) steps
    · obtain ⟨started, leftSlot, leftGraph, rightSlot, rightGraph, begun, leftLowered, can,
        rightLowered, joined⟩ := lowerExpr_logical_eq_ok_iff.mp lowered
      have startEvaluated := evaluated_constant begun
      have startedSees := sees.evaluated startEvaluated
      have leftEvaluated := evaluated_lowerExpr left startedSees.formed tree.1 leftLowered
      have leftSees := startedSees.evaluated leftEvaluated
      have split := canBranch_logicalSplit leftEvaluated.hasSlot can
      have splitSees := split.sees leftSees
      have rightEvaluated := evaluated_lowerExpr right splitSees.formed tree.2 rightLowered
      have known (number : Nat) (isNew : number < 3) :
          rightGraph.HasBlock (leftGraph.newKey number) :=
        rightEvaluated.steps.hasBlock (hasBlock_changed.mpr
          (hasBlock_newKey leftGraph (by simpa using isNew)))
      obtain ⟨joins, rightSteps⟩ := joinsLogical_of_joinLogical
        (splitSees.evaluated rightEvaluated)
        (rightEvaluated.steps.hasSlot
          (split.steps.hasSlot (leftEvaluated.steps.hasSlot startEvaluated.hasSlot)))
        rightEvaluated.hasSlot (known 1 (by omega)) (known 2 (by omega)) joined steps
      have splitSteps := rightEvaluated.steps.trans rightSteps
      exact evaluates_logical sees begun leftEvaluated
        (evaluates_lowerExpr left calls startedSees tree.1 leftOrderly leftLowered
          (split.steps.trans splitSteps)) can rightEvaluated
        (evaluates_lowerExpr right calls splitSees tree.2 rightOrderly rightLowered
          rightSteps) joins rightSteps
  | unary span op opSpan operand =>
    obtain ⟨operandSlot, middle, operandLowered, can, -, rfl, rfl⟩ :=
      lowerExpr_unary_eq_ok_iff.mp lowered
    rw [Expr.parts, Program.Orderly, List.forall_mem_cons] at orderly
    have evaluated := evaluated_lowerExpr operand sees.formed tree operandLowered
    have target := hasSlot_withTemporary middle
    have operandKnown := (evaluated_withTemporary can).steps.hasSlot evaluated.hasSlot
    have operandSteps : Steps middle site.final :=
      .head (.withTemporary can) (.head (.extended (.copy target operandKnown))
        (.head (.extended (.unary op target)) steps))
    exact evaluates_unary sees evaluated
      (evaluates_lowerExpr operand calls sees tree orderly.2 operandLowered operandSteps)
      steps
  | step span op fixity target =>
    obtain ⟨operand, found, filled⟩ := lowerExpr_step_eq_ok_iff.mp lowered
    rw [sees.lookup?_eq tree] at found
    exact evaluates_step sees found filled steps
  | assign span target op value =>
    obtain ⟨valueSlot, middle, valueLowered, found, -, rfl⟩ := lowerExpr_assign_eq_ok_iff.mp lowered
    rw [Expr.parts, Program.Orderly, List.forall_mem_cons] at orderly
    have evaluated := evaluated_lowerExpr value sees.formed tree.2 valueLowered
    have middleSees := sees.evaluated evaluated
    rw [middleSees.lookup?_eq tree.1] at found
    have valueSteps : Steps middle site.final :=
      .head (.extended (wellFormed_storeInstruction _ (middleSees.hasSlot_of_lookup? found)
        evaluated.hasSlot)) steps
    exact evaluates_assign sees evaluated
      (evaluates_lowerExpr value calls sees tree.2 orderly.2 valueLowered valueSteps) found
      steps

/-- The code of the arguments of a call evaluates them. -/
theorem evaluates_lowerArguments (arguments : List Expr) {graph next : Graph}
    {targets : List Slot} (calls : site.CallsFollow program) (sees : graph.Sees slots)
    (tree : Expr.AllWellFormed arguments)
    (orderly : program.Orderly (Expr.partsOfAll arguments))
    (independent : arguments.Pairwise Expr.Independent)
    (lowered : lowerArguments program.defines arguments graph = .ok (targets, next))
    (steps : Steps next site.final) : site.EvaluatesAll slots arguments graph targets next := by
  cases arguments with
  | nil =>
    cases lowered
    exact fun store state agrees => .ok ⟨store, rfl, .refl agrees _, rfl⟩
  | cons first others =>
    obtain ⟨firstSlot, middle, otherSlots, firstLowered, othersLowered, rfl⟩ :=
      lowerArguments_cons_eq_ok_iff.mp lowered
    rw [Expr.partsOfAll, Program.Orderly, List.forall_mem_append] at orderly
    rw [List.pairwise_cons] at independent
    have evaluated := evaluated_lowerExpr first sees.formed tree.1 firstLowered
    have middleSees := sees.evaluated evaluated
    have otherSteps := (evaluated_lowerArguments others middleSees.formed tree.2 othersLowered).1
    exact evaluatesAll_cons sees evaluated
      (evaluates_lowerExpr first calls sees tree.1 orderly.1 firstLowered (otherSteps.trans steps))
      (slotOf_lowerExpr first sees tree.1 firstLowered) independent.1
      (evaluates_lowerArguments others calls middleSees tree.2 orderly.2 independent.2
        othersLowered steps)

end

end SmallC
