import SmallC.Proofs.Lowering.StatementGrowth
import SmallC.Proofs.Simulation.Control

/-!
# Statements on the machine

The code of every statement executes it.
-/

namespace SmallC

open Evaluation Execution Lowering SmallC.Graph

variable {site : Site} {program : Program} {graph next : Graph} {loop : Option LoopTargets}
  {initializer : Option ForInitializer} {store : Store} {id : BlockId}

/-! ## Scopes and loops -/

/-- Closing a scope that was opened gives back the scopes around it. -/
theorem named_eq_of_leave? {scopes inside outer : Scopes Slot}
    (enclosing_eq : inside.named.enclosing = scopes.enter.named.enclosing)
    (left : inside.leave? = some outer) : outer.named = scopes.named := by
  have leftNamed : inside.named.leave? = some outer.named := by
    rw [Scopes.leave?_named, left, Option.map_some]
  rw [Scopes.leave?, enclosing_eq] at leftNamed
  exact (Option.some.inj leftNamed).symm

theorem Lowering.LoopTargets.Known.steps (known : LoopTargets.Known loop graph)
    (steps : Steps graph next) : LoopTargets.Known loop next :=
  known.mono steps.hasBlock

/-! ## Declarations -/

theorem executes_lowerDeclarator {declarator : Declarator} (calls : site.CallsFollow program)
    (kept : graph.Invariant) (tree : declarator.WellFormed)
    (orderly : program.Orderly (Expr.partsOfOption declarator.initializer))
    (lowered : lowerDeclarator program.defines declarator graph = .ok next)
    (steps : Steps next site.final) {state : State}
    (agrees : Agrees graph.scopes.named state.scopes store) :
    site.world.Simulates site.limit (site.atEnd graph store state.trace)
      (execDeclarator site.call declarator state) (site.Continues next.scopes.named next) := by
  obtain ⟨span, name, initializer⟩ := declarator
  have isVariable := isTemporary_of_isWord tree.1
  have named_eq : (graph.declared name.name).scopes.named =
      graph.scopes.named.declare name.name graph.symbols.nextKey :=
    Scopes.named_declare _ isVariable _
  have declaredAgrees : Agrees (graph.declared name.name).scopes.named
      (state.declare name.name).scopes store := by
    rw [named_eq]
    exact agrees.declare name.name _
  cases initializer with
  | none =>
    obtain ⟨-, rfl⟩ := lowerDeclarator_none_eq_ok_iff.mp lowered
    exact .ok ⟨store, rfl, declaredAgrees⟩
  | some value =>
    obtain ⟨can, valueSlot, middle, valueLowered, known, rfl⟩ :=
      lowerDeclarator_some_eq_ok_iff.mp lowered
    have sees : (graph.declared name.name).Sees (graph.declared name.name).scopes.named :=
      ⟨kept.step (.declared isVariable can), rfl⟩
    have evaluated := evaluated_lowerExpr value sees.formed tree.2 valueLowered
    have middleSees := sees.evaluated evaluated
    have found : (graph.declared name.name).scopes.named.lookup? name.name =
        some graph.symbols.nextKey := by
      rw [named_eq]
      exact Scopes.lookup?_declare_self _ _ _
    have valueSteps : Steps middle site.final :=
      .head (.extended (.copy (middleSees.hasSlot_of_lookup? found) evaluated.hasSlot)) steps
    refine ((evaluates_lowerExpr value calls sees tree.2 orderly valueLowered valueSteps)
      store _ declaredAgrees).demand.bind ?_
    rintro ⟨number, later⟩ _ ⟨after, rfl, follows, holds⟩
    obtain ⟨scopes, written, writtenAgrees⟩ := follows.agrees.write middleSees.distinct found number
    have performed := perform_copy after graph.symbols.nextKey valueSlot
    rw [holds number rfl] at performed
    refine .of_step (step_storing known steps performed) ?_
    simp only [written]
    refine .ok ⟨_, rfl, ?_⟩
    rw [changed_scopes, middleSees.named_eq]
    exact writtenAgrees

theorem executes_lowerDeclarators (declarators : List Declarator) {graph : Graph}
    (calls : site.CallsFollow program) (kept : graph.Invariant)
    (tree : ∀ declarator ∈ declarators, declarator.WellFormed)
    (orderly : program.Orderly (Declarator.parts declarators))
    (lowered : lowerDeclarators program.defines declarators graph = .ok next)
    (steps : Steps next site.final) {state : State}
    (agrees : Agrees graph.scopes.named state.scopes store) :
    site.world.Simulates site.limit (site.atEnd graph store state.trace)
      (execDeclarators site.call declarators state) (site.Continues next.scopes.named next) := by
  induction declarators generalizing graph store state with
  | nil =>
    cases lowered
    exact .ok ⟨store, rfl, agrees⟩
  | cons first others ih =>
    rw [List.forall_mem_cons] at tree
    rw [Declarator.parts, Program.Orderly, List.forall_mem_append] at orderly
    obtain ⟨middle, firstLowered, othersLowered⟩ := lowerDeclarators_cons_eq_ok_iff.mp lowered
    have firstSteps := (executed_lowerDeclarator kept.formed tree.1 firstLowered).steps
    have middleKept := firstSteps.invariant kept
    have otherSteps := (executed_lowerDeclarators others middleKept.formed tree.2
      othersLowered).steps
    refine (executes_lowerDeclarator calls kept tree.1 orderly.1 firstLowered
      (otherSteps.trans steps) agrees).bind ?_
    rintro later _ ⟨after, rfl, laterAgrees⟩
    exact ih middleKept tree.2 orderly.2 othersLowered laterAgrees

theorem executes_lowerForInitializer (calls : site.CallsFollow program) (kept : graph.Invariant)
    (tree : ForInitializer.WellFormed initializer)
    (orderly : program.Orderly (ForInitializer.parts initializer))
    (lowered : lowerForInitializer program.defines initializer graph = .ok next)
    (steps : Steps next site.final) {state : State}
    (agrees : Agrees graph.scopes.named state.scopes store) :
    site.world.Simulates site.limit (site.atEnd graph store state.trace)
      (execForInitializer site.call initializer state)
      (site.Continues next.scopes.named next) := by
  match initializer with
  | none =>
    cases lowered
    exact .ok ⟨store, rfl, agrees⟩
  | some (.declaration declarators) =>
    exact executes_lowerDeclarators declarators calls kept tree orderly lowered steps agrees
  | some (.expression value) =>
    obtain ⟨slot, valueLowered⟩ := lowerEffect_eq_ok_iff.mp lowered
    have evaluated := evaluated_lowerExpr value kept.formed tree valueLowered
    rw [evaluated.named_eq]
    exact simulates_evalEffect (evaluates_lowerExpr value calls ⟨kept, rfl⟩ tree orderly
      valueLowered steps) agrees

/-! ## Parts of control statements -/

/-- Code that ends at the start of a block and keeps the variables in scope.  In every finished graph
it does what is claimed of it. -/
structure Site.Part (site : Site) (slots : Scopes Slot) (graph next : Graph) (id : BlockId)
    (claim : Prop) : Prop where
  steps : Steps graph next
  sees : next.Sees slots
  opens : site.Opens next id
  claimed : Steps next site.final → claim

section Parts

variable {slots : Scopes Slot}

theorem part_jump (site : Site) (tags : List String) {target : BlockId} (sees : graph.Sees slots)
    (targetKnown : (graph.createdAll tags).HasBlock target)
    (idKnown : (graph.createdAll tags).HasBlock id) (can : (graph.createdAll tags).CanEnter id) :
    site.Part slots graph ((graph.createdAll tags).jumped target id) id
      (site.JumpsTo graph target) :=
  have jump : graph.CanJump tags target id := ⟨targetKnown, idKnown, can⟩
  ⟨jump.steps, jump.sees sees, jump.opens sees, jump.jumpsTo sees⟩

/-- A condition with the branch after it, which enters one of its targets. -/
theorem part_lowerCondition (tags : List String) {condition : Expr} {test : Slot} {tested : Graph}
    {onTrue onFalse : BlockId} (calls : site.CallsFollow program) (sees : graph.Sees slots)
    (tree : condition.WellFormed) (orderly : program.Orderly condition.parts)
    (lowered : lowerExpr program.defines condition graph = .ok (test, tested))
    (known : Steps graph tested →
      (tested.createdAll tags).HasBlock onTrue ∧ (tested.createdAll tags).HasBlock onFalse)
    (isTarget : id = onTrue ∨ id = onFalse) (can : (tested.createdAll tags).CanEnter id) :
    site.Part slots graph ((tested.createdAll tags).branched test onTrue onFalse id) id
      (site.Decides slots (some condition) graph onTrue onFalse) := by
  have evaluated := evaluated_lowerExpr condition sees.formed tree lowered
  have testedSees := sees.evaluated evaluated
  obtain ⟨onTrueKnown, onFalseKnown⟩ := known evaluated.steps
  have idKnown : (tested.createdAll tags).HasBlock id := by
    rcases isTarget with rfl | rfl
    · exact onTrueKnown
    · exact onFalseKnown
  have branch : tested.CanBranch tags test onTrue onFalse id :=
    ⟨evaluated.hasSlot, onTrueKnown, onFalseKnown, idKnown, can⟩
  refine ⟨evaluated.steps.trans branch.steps, branch.sees testedSees, branch.opens testedSees,
    fun steps => ?_⟩
  exact decides_of_branchesTo (evaluates_lowerExpr condition calls sees tree orderly lowered
    (branch.steps.trans steps)) (branch.branchesTo testedSees steps)

/-- A statement that has blocks of its own, with the jump after it. -/
theorem part_arm {statement : Stmt} {done : Graph} {start target : BlockId}
    (executes : Steps done site.final → site.Executes loop statement graph done)
    (sees : graph.Sees slots) (opens : site.Opens graph start)
    (tree : statement.WellFormed ∧ statement.isDeclaration = false)
    (targets : LoopTargets.Known loop graph)
    (lowered : lowerStmt program.defines loop statement graph = .ok done)
    (targetKnown : graph.HasBlock target) (idKnown : graph.HasBlock id) (can : done.CanEnter id) :
    site.Part slots graph (done.jumped target id) id
      (site.Arm slots loop statement start target) := by
  obtain ⟨executed, named_eq⟩ := completed_lowerStmt statement sees.formed tree.1 targets lowered
  have doneSees := sees.steps executed.steps (named_eq tree.2)
  have jump := part_jump site [] doneSees (executed.steps.hasBlock targetKnown)
    (executed.steps.hasBlock idKnown) can
  refine ⟨executed.steps.trans jump.steps, jump.sees, jump.opens, fun steps => ?_⟩
  exact arm_of_executes (executes (jump.steps.trans steps)) opens sees.named_eq doneSees.named_eq
    (jump.claimed steps)

/-- The code of the test of a `for` statement decides whether its body runs. -/
theorem part_lowerForTest {blocks : ForBlocks} {test : Option Expr}
    (calls : site.CallsFollow program) (sees : graph.Sees slots)
    (tree : Expr.OptionWellFormed test) (orderly : program.Orderly (Expr.partsOfOption test))
    (bodyKnown : graph.HasBlock blocks.body) (outKnown : graph.HasBlock blocks.out)
    (lowered : (lowerForTest program.defines blocks test graph >>= enterBlock blocks.body) = .ok next) :
    site.Part slots graph next blocks.body
      (site.Decides slots test graph blocks.body blocks.out) := by
  cases test with
  | none =>
    obtain ⟨can, rfl⟩ := lowerForTest_none_eq_ok_iff.mp lowered
    have jump := part_jump site [] sees bodyKnown bodyKnown can
    exact ⟨jump.steps, jump.sees, jump.opens, fun steps => decides_of_jumpsTo (jump.claimed steps)⟩
  | some value =>
    obtain ⟨test, tested, valueLowered, can, rfl⟩ := lowerForTest_some_eq_ok_iff.mp lowered
    exact part_lowerCondition [] calls sees tree orderly valueLowered
      (fun steps => ⟨steps.hasBlock bodyKnown, steps.hasBlock outKnown⟩) (.inl rfl) can

/-- The code between the body and the test of a `for` statement. -/
theorem advances_lowerForAfter {start : Graph} {after : Option Expr}
    (calls : site.CallsFollow program) (sees : graph.Sees slots)
    (tree : Expr.OptionWellFormed after) (orderly : program.Orderly (Expr.partsOfOption after))
    (known : ∀ id ∈ laterForBlocks start after, graph.HasBlock id)
    (lowered : lowerForAfter program.defines (forBlocks start after) graph = .ok next) :
    Steps graph next ∧ next.Sees slots ∧ (Steps next site.final →
      site.JumpsTo next (forBlocks start after).test →
        site.JumpsTo graph (forBlocks start after).targets.onContinue ∧
          site.Advances slots after (forBlocks start after).targets.onContinue
            (forBlocks start after).test) := by
  cases after with
  | none =>
    cases lowered
    exact ⟨.refl, sees, fun _ jumps => ⟨jumps, advances_none _⟩⟩
  | some value =>
    obtain ⟨can, slot, valueLowered⟩ := lowerForAfter_some_eq_ok_iff.mp lowered
    have afterKnown := known (start.newKey 2) List.mem_cons_self
    have jump := part_jump site [] sees afterKnown afterKnown can
    have evaluated := evaluated_lowerExpr value jump.sees.formed tree valueLowered
    refine ⟨jump.steps.trans evaluated.steps, jump.sees.evaluated evaluated,
      fun steps jumps => ⟨jump.claimed (evaluated.steps.trans steps), ?_⟩⟩
    exact advances_some jump.opens (evaluates_lowerExpr value calls jump.sees tree orderly
      valueLowered steps) jumps

end Parts

/-! ## Statements -/

/-- Wherever a statement is lowered, its code executes it. -/
def Site.Realizes (site : Site) (program : Program) (statement : Stmt) : Prop :=
  ∀ ⦃graph next : Graph⦄ ⦃loop : Option LoopTargets⦄, graph.Invariant → statement.WellFormed →
    program.Orderly statement.parts → LoopTargets.Known loop graph →
      lowerStmt program.defines loop statement graph = .ok next → Steps next site.final →
        site.Executes loop statement graph next

/-- Wherever statements are lowered, their code executes them. -/
def Site.RealizesAll (site : Site) (program : Program) (statements : List Stmt) : Prop :=
  ∀ ⦃graph next : Graph⦄ ⦃loop : Option LoopTargets⦄, graph.Invariant →
    Stmt.AllWellFormed statements → program.Orderly (Stmt.partsOfAll statements) →
      LoopTargets.Known loop graph →
        lowerStmts program.defines loop statements graph = .ok next → Steps next site.final →
          site.ExecutesAll loop statements graph next

section Statements

variable {span : Span} {condition value : Expr} {positive negative body : Stmt}

theorem realizes_declaration {declarators : List Declarator} (calls : site.CallsFollow program) :
    site.Realizes program (.declaration span declarators) := by
  intro graph next loop kept tree orderly targets lowered steps store state agrees
  rw [lowerStmt] at lowered
  rw [execStmt]
  refine (executes_lowerDeclarators declarators calls kept tree orderly lowered steps
    agrees).bind ?_
  intro later machine continues
  exact .ok continues

theorem realizes_expression (calls : site.CallsFollow program) :
    site.Realizes program (.expression span value) := by
  intro graph next loop kept tree orderly targets lowered steps store state agrees
  rw [lowerStmt, lowerEffect_eq_ok_iff] at lowered
  obtain ⟨slot, valueLowered⟩ := lowered
  have evaluated := evaluated_lowerExpr value kept.formed tree valueLowered
  rw [execStmt]
  refine (simulates_evalEffect (evaluates_lowerExpr value calls ⟨kept, rfl⟩ tree orderly
    valueLowered steps) agrees).bind ?_
  intro later machine continues
  refine .ok ?_
  rw [← evaluated.named_eq] at continues
  exact continues

theorem realizes_block {statements : List Stmt} (realizes : site.RealizesAll program statements) :
    site.Realizes program (.block span statements) := by
  intro graph next loop kept tree orderly targets lowered steps
  obtain ⟨inside, outer, insideLowered, left, rfl⟩ := lowerStmt_block_eq_ok_iff.mp lowered
  have openedKept := kept.step .opened
  have openedTargets := targets.steps (.single .opened)
  have executed := executed_lowerStmts statements openedKept.formed tree openedTargets insideLowered
  have executes := realizes openedKept tree orderly openedTargets insideLowered
    (.head (.closed left) steps)
  exact executes_block executes executed.enclosing_eq
    (named_eq_of_leave? executed.enclosing_eq left)

section

variable (calls : site.CallsFollow program)
include calls

theorem realizes_ifThen (realizes : site.Realizes program positive) :
    site.Realizes program (.ifThen span condition positive) := by
  intro graph next loop kept tree orderly targets lowered steps
  obtain ⟨test, tested, done, conditionLowered, can, positiveLowered, canOut, rfl⟩ :=
    lowerStmt_ifThen_eq_ok_iff.mp lowered
  rw [Stmt.parts, Program.Orderly, List.forall_mem_append] at orderly
  have known (number : Nat) (isNew : number < 2) :
      (tested.createdAll ["if_true", "if_out"]).HasBlock (tested.newKey number) :=
    hasBlock_newKey tested isNew
  have decision := part_lowerCondition _ calls ⟨kept, rfl⟩ tree.1 orderly.1 conditionLowered
    (fun _ => ⟨known 0 (by omega), known 1 (by omega)⟩) (.inl rfl) can
  have inside := targets.steps decision.steps
  have arm := part_arm (realizes decision.sees.kept tree.2.1 orderly.2 inside positiveLowered)
    decision.sees decision.opens tree.2 inside positiveLowered
    (hasBlock_changed.mpr (known 1 (by omega))) (hasBlock_changed.mpr (known 1 (by omega))) canOut
  exact executes_ifThen rfl (decision.claimed (arm.steps.trans steps)) (arm.claimed steps)
    arm.opens arm.sees.named_eq

theorem realizes_ifElse (realizes : site.Realizes program positive)
    (otherRealizes : site.Realizes program negative) :
    site.Realizes program (.ifElse span condition positive negative) := by
  intro graph next loop kept tree orderly targets lowered steps
  obtain ⟨test, tested, done, otherwise, conditionLowered, can, positiveLowered, canFalse,
    negativeLowered, canOut, rfl⟩ := lowerStmt_ifElse_eq_ok_iff.mp lowered
  rw [Stmt.parts, Program.Orderly, List.forall_mem_append, List.forall_mem_append] at orderly
  have known (number : Nat) (isNew : number < 3) :
      (tested.createdAll ["if_true", "if_false", "if_out"]).HasBlock (tested.newKey number) :=
    hasBlock_newKey tested isNew
  have decision := part_lowerCondition _ calls ⟨kept, rfl⟩ tree.1 orderly.1.1
    conditionLowered (fun _ => ⟨known 0 (by omega), known 1 (by omega)⟩) (.inl rfl) can
  have inside := targets.steps decision.steps
  have arm := part_arm (realizes decision.sees.kept tree.2.1.1 orderly.1.2 inside
    positiveLowered) decision.sees decision.opens tree.2.1 inside positiveLowered
    (hasBlock_changed.mpr (known 2 (by omega))) (hasBlock_changed.mpr (known 1 (by omega))) canFalse
  have otherInside := inside.steps arm.steps
  have otherKnown := arm.steps.hasBlock (hasBlock_changed.mpr (known 2 (by omega)))
  have otherArm := part_arm (otherRealizes arm.sees.kept tree.2.2.1 orderly.2 otherInside
    negativeLowered) arm.sees arm.opens tree.2.2 otherInside negativeLowered otherKnown
    otherKnown canOut
  have armSteps := otherArm.steps.trans steps
  exact executes_ifElse rfl (decision.claimed (arm.steps.trans armSteps)) (arm.claimed armSteps)
    (otherArm.claimed steps) otherArm.opens otherArm.sees.named_eq

section

variable (realizes : site.Realizes program body)
include realizes

theorem realizes_whileLoop : site.Realizes program (.whileLoop span condition body) := by
  intro graph next loop kept tree orderly targets lowered steps
  obtain ⟨test, tested, done, can, conditionLowered, canBody, bodyLowered, canOut, rfl⟩ :=
    lowerStmt_whileLoop_eq_ok_iff.mp lowered
  rw [Stmt.parts, Program.Orderly, List.forall_mem_append] at orderly
  have known (number : Nat) (isNew : number < 3) :
      (graph.createdAll ["while_test", "while_body", "while_out"]).HasBlock (graph.newKey number) :=
    hasBlock_newKey graph isNew
  have jump := part_jump site _ ⟨kept, rfl⟩ (known 0 (by omega)) (known 0 (by omega)) can
  have decision := part_lowerCondition [] calls jump.sees tree.1 orderly.1
    conditionLowered (fun steps => ⟨steps.hasBlock (hasBlock_changed.mpr (known 1 (by omega))),
      steps.hasBlock (hasBlock_changed.mpr (known 2 (by omega)))⟩) (.inl rfl) canBody
  have bodyKnown (number : Nat) (isNew : number < 3) :=
    decision.steps.hasBlock (hasBlock_changed.mpr (known number isNew))
  have inside : LoopTargets.Known (some ⟨graph.newKey 0, graph.newKey 2⟩) _ :=
    LoopTargets.known_some (bodyKnown 0 (by omega)) (bodyKnown 2 (by omega))
  have arm := part_arm (realizes decision.sees.kept tree.2.1 orderly.2 inside bodyLowered)
    decision.sees decision.opens tree.2 inside bodyLowered (bodyKnown 0 (by omega))
    (bodyKnown 2 (by omega)) canOut
  have bodySteps := arm.steps.trans steps
  exact executes_whileLoop rfl (jump.claimed (decision.steps.trans bodySteps)) jump.opens
    (decision.claimed bodySteps) (arm.claimed steps) arm.opens arm.sees.named_eq

theorem realizes_doWhile : site.Realizes program (.doWhile span body condition) := by
  intro graph next loop kept tree orderly targets lowered steps
  obtain ⟨done, test, tested, can, bodyLowered, canTest, conditionLowered, canOut, rfl⟩ :=
    lowerStmt_doWhile_eq_ok_iff.mp lowered
  rw [Stmt.parts, Program.Orderly, List.forall_mem_append] at orderly
  have entryKnown : (graph.createdAll ["do_body", "do_test", "do_out"]).HasBlock
      (graph.newKey 0) :=
    hasBlock_newKey graph (by decide)
  have jump := part_jump site _ ⟨kept, rfl⟩ entryKnown entryKnown can
  have bodyKnown (number : Nat) (isNew : number < 3) :
      ((graph.createdAll ["do_body", "do_test", "do_out"]).jumped (graph.newKey 0)
        (graph.newKey 0)).HasBlock (graph.newKey number) :=
    hasBlock_changed.mpr (hasBlock_newKey graph isNew)
  have inside : LoopTargets.Known (some ⟨graph.newKey 1, graph.newKey 2⟩) _ :=
    LoopTargets.known_some (bodyKnown 1 (by omega)) (bodyKnown 2 (by omega))
  have arm := part_arm (realizes jump.sees.kept tree.1.1 orderly.1 inside bodyLowered)
    jump.sees jump.opens tree.1 inside bodyLowered (bodyKnown 1 (by omega))
    (bodyKnown 1 (by omega)) canTest
  have decision := part_lowerCondition [] calls arm.sees tree.2 orderly.2
    conditionLowered (fun steps =>
      ⟨steps.hasBlock (arm.steps.hasBlock (bodyKnown 0 (by omega))),
        steps.hasBlock (arm.steps.hasBlock (bodyKnown 2 (by omega)))⟩) (.inr rfl) canOut
  have testSteps := decision.steps.trans steps
  exact executes_doWhile rfl (jump.claimed (arm.steps.trans testSteps)) (arm.claimed testSteps)
    arm.opens (decision.claimed steps) decision.opens decision.sees.named_eq

theorem realizes_forLoop {test after : Option Expr} :
    site.Realizes program (.forLoop span initializer test after body) := by
  intro graph next loop kept tree orderly targets lowered steps
  obtain ⟨started, tested, done, ended, outer, begun, can, testLowered, bodyLowered,
    afterLowered, canOut, left, rfl⟩ := lowerStmt_forLoop_eq_ok_iff.mp lowered
  rw [Stmt.parts, Program.Orderly, List.forall_mem_append, List.forall_mem_append,
    List.forall_mem_append] at orderly
  obtain ⟨⟨⟨initializerOrderly, testOrderly⟩, afterOrderly⟩, bodyOrderly⟩ := orderly
  obtain ⟨initializerFormed, testFormed, afterFormed, bodyFormed, notDeclaration⟩ := tree
  have openedKept := kept.step .opened
  have startExecuted := executed_lowerForInitializer openedKept.formed initializerFormed begun
  have startedSees : started.Sees started.scopes.named :=
    ⟨startExecuted.steps.invariant openedKept, rfl⟩
  have known := hasForBlocks_createdAll started after
  have jump := part_jump site _ startedSees known.test known.test can
  have jumpedKnown : HasForBlocks started after ((started.createdAll (forTags after)).jumped
      (forBlocks started after).test (forBlocks started after).test) :=
    known.mono hasBlock_changed.mpr
  have decision := part_lowerForTest calls jump.sees testFormed testOrderly jumpedKnown.body
    jumpedKnown.out testLowered
  have testedKnown := jumpedKnown.mono decision.steps.hasBlock
  obtain ⟨executed, named_eq⟩ := completed_lowerStmt body decision.sees.formed bodyFormed
    testedKnown.targets bodyLowered
  have doneSees := decision.sees.steps executed.steps (named_eq notDeclaration)
  have doneKnown := testedKnown.mono executed.steps.hasBlock
  obtain ⟨afterSteps, endedSees, advances⟩ := advances_lowerForAfter calls doneSees afterFormed
    afterOrderly doneKnown.later afterLowered
  have endedKnown := doneKnown.mono afterSteps.hasBlock
  have jumpBack := part_jump site [] endedSees endedKnown.test endedKnown.out canOut
  have backSteps : Steps (ended.jumped (forBlocks started after).test
      (forBlocks started after).out) site.final :=
    .head (.closed left) steps
  have endedSteps := jumpBack.steps.trans backSteps
  have doneSteps := afterSteps.trans endedSteps
  have testedSteps := executed.steps.trans doneSteps
  have untilEnd := decision.steps.trans testedSteps
  obtain ⟨jumpsOn, advancing⟩ := advances endedSteps (jumpBack.claimed backSteps)
  have enclosing_eq : started.scopes.named.enclosing = graph.scopes.named.all :=
    startExecuted.enclosing_eq
  have outer_named_eq : outer.named = graph.scopes.named := by
    refine named_eq_of_leave? ?_ left
    rw [endedSees.named_eq]
    exact enclosing_eq
  have executes := realizes decision.sees.kept bodyFormed bodyOrderly testedKnown.targets bodyLowered
    doneSteps
  rw [forBlocks_targets] at executes
  exact executes_forLoop rfl (fun store state agrees => executes_lowerForInitializer calls
    openedKept initializerFormed initializerOrderly begun (jump.steps.trans untilEnd) agrees)
    enclosing_eq (jump.claimed untilEnd) jump.opens (decision.claimed testedSteps)
    (arm_of_executes executes decision.opens decision.sees.named_eq doneSees.named_eq jumpsOn)
    advancing jumpBack.opens outer_named_eq

end

end

theorem realizes_breakLoop : site.Realizes program (.breakLoop span) := by
  intro graph next loop kept tree orderly targets lowered steps store state agrees
  obtain ⟨here, rfl, known, rfl⟩ := lowerStmt_breakLoop_eq_ok_iff.mp lowered
  rw [execStmt]
  exact .of_step (step_extended known steps (perform_jump _ _))
    (.ok ⟨here, rfl, _, rfl, store, rfl, agrees⟩)

theorem realizes_continueLoop : site.Realizes program (.continueLoop span) := by
  intro graph next loop kept tree orderly targets lowered steps store state agrees
  obtain ⟨here, rfl, known, rfl⟩ := lowerStmt_continueLoop_eq_ok_iff.mp lowered
  rw [execStmt]
  exact .of_step (step_extended known steps (perform_jump _ _))
    (.ok ⟨here, rfl, _, rfl, store, rfl, agrees⟩)

theorem realizes_return : site.Realizes program (.returnValue span none) := by
  intro graph next loop kept tree orderly targets lowered steps store state agrees
  rw [lowerStmt, add_eq_ok_iff] at lowered
  obtain ⟨known, rfl⟩ := lowered
  rw [execStmt]
  exact .of_step (step_extended known steps (perform_ret _ _)) (.ok (returns_leave _ _ _))

theorem realizes_returnValue (calls : site.CallsFollow program) :
    site.Realizes program (.returnValue span (some value)) := by
  intro graph next loop kept tree orderly targets lowered steps store state agrees
  obtain ⟨slot, middle, valueLowered, known, rfl⟩ := lowerStmt_returnValue_some_eq_ok_iff.mp lowered
  have evaluated := evaluated_lowerExpr value kept.formed tree valueLowered
  have slotKnown : ∀ found ∈ some slot, middle.HasSlot found := by
    rintro found ⟨⟩
    exact evaluated.hasSlot
  rw [execStmt]
  refine ((evaluates_lowerExpr value calls ⟨kept, rfl⟩ tree orderly valueLowered
    (.head (.extended (.ret slotKnown)) steps)) store state agrees).demand.bind ?_
  rintro ⟨number, later⟩ _ ⟨after, rfl, follows, holds⟩
  refine .of_step (step_extended known steps (perform_ret _ _)) (.ok ?_)
  rw [Option.map_some, holds number rfl]
  exact returns_leave _ _ _

theorem realizes_empty : site.Realizes program (.empty span) := by
  intro graph next loop kept tree orderly targets lowered steps store state agrees
  cases lowered
  rw [execStmt]
  exact .ok ⟨store, rfl, agrees⟩

theorem realizesAll_nil : site.RealizesAll program [] := by
  intro graph next loop kept tree orderly targets lowered steps store state agrees
  cases lowered
  rw [execStmts]
  exact .ok ⟨store, rfl, agrees⟩

theorem realizesAll_cons {first : Stmt} {others : List Stmt}
    (realizes : site.Realizes program first) (othersRealize : site.RealizesAll program others) :
    site.RealizesAll program (first :: others) := by
  intro graph next loop kept tree orderly targets lowered steps store state agrees
  obtain ⟨middle, firstLowered, othersLowered⟩ := lowerStmts_cons_eq_ok_iff.mp lowered
  rw [Stmt.partsOfAll, Program.Orderly, List.forall_mem_append] at orderly
  have firstExecuted := (completed_lowerStmt first kept.formed tree.1 targets firstLowered).1
  have middleKept := firstExecuted.steps.invariant kept
  have middleTargets := targets.steps firstExecuted.steps
  have othersExecuted := executed_lowerStmts others middleKept.formed tree.2 middleTargets
    othersLowered
  rw [execStmts]
  refine ((realizes kept tree.1 orderly.1 targets firstLowered
    (othersExecuted.steps.trans steps)) store state agrees).bind ?_
  rintro ⟨signal, later⟩ machine ends
  cases signal with
  | normal =>
    obtain ⟨after, rfl, laterAgrees⟩ := ends
    have rest := othersRealize middleKept tree.2 orderly.2 middleTargets othersLowered steps
      after later laterAgrees
    rw [firstExecuted.enclosing_eq] at rest
    exact rest
  | broke | continued =>
    obtain ⟨here, isLoop, _, rfl, starts⟩ := ends
    exact .ok ⟨here, isLoop, _, rfl, starts⟩
  | returned value => exact .ok ends

end Statements

mutual

/-- The code of a statement executes it. -/
theorem executes_lowerStmt (statement : Stmt) (calls : site.CallsFollow program) :
    site.Realizes program statement := by
  cases statement with
  | declaration => exact realizes_declaration calls
  | expression => exact realizes_expression calls
  | block span statements => exact realizes_block (executes_lowerStmts statements calls)
  | ifThen span condition positive =>
    exact realizes_ifThen calls (executes_lowerStmt positive calls)
  | ifElse span condition positive negative =>
    exact realizes_ifElse calls (executes_lowerStmt positive calls)
      (executes_lowerStmt negative calls)
  | whileLoop span condition body =>
    exact realizes_whileLoop calls (executes_lowerStmt body calls)
  | doWhile span body condition => exact realizes_doWhile calls (executes_lowerStmt body calls)
  | forLoop span initializer test after body =>
    exact realizes_forLoop calls (executes_lowerStmt body calls)
  | breakLoop => exact realizes_breakLoop
  | continueLoop => exact realizes_continueLoop
  | returnValue span value =>
    cases value with
    | none => exact realizes_return
    | some value => exact realizes_returnValue calls
  | empty => exact realizes_empty

/-- The code of statements executes them. -/
theorem executes_lowerStmts (statements : List Stmt) (calls : site.CallsFollow program) :
    site.RealizesAll program statements := by
  cases statements with
  | nil => exact realizesAll_nil
  | cons first others =>
    exact realizesAll_cons (executes_lowerStmt first calls) (executes_lowerStmts others calls)

end

end SmallC
