import SmallC.Proofs.Lowering.Growth

/-!
# What lowering statements does to a graph

A statement leaves the scopes around the innermost one as they were, and adds to that one only the
names that it declares.  At the end stands what follows for a graph that was built in order from a
program that was parsed.
-/

namespace SmallC

/-- The names that a statement declares in the scope around it.  The body of an `if` or a loop is in
that scope too, unless it is a block. -/
def Stmt.declaredNames : Stmt → List String
  | .declaration _ declarators => declarators.map (·.name.name)
  | .ifThen _ _ positive => positive.declaredNames
  | .ifElse _ _ positive negative => positive.declaredNames ++ negative.declaredNames
  | .whileLoop _ _ body => body.declaredNames
  | .doWhile _ body _ => body.declaredNames
  | _ => []

/-- In a program that was parsed, only declarations declare anything around them. -/
theorem Stmt.declaredNames_eq_nil (statement : Stmt) (formed : statement.WellFormed)
    (other : statement.isDeclaration = false) : statement.declaredNames = [] := by
  cases statement with
  | declaration span declarators => cases other
  | ifThen span condition positive =>
    exact declaredNames_eq_nil positive formed.2.1 formed.2.2
  | ifElse span condition positive negative =>
    rw [declaredNames, declaredNames_eq_nil positive formed.2.1.1 formed.2.1.2,
      declaredNames_eq_nil negative formed.2.2.1 formed.2.2.2, List.append_nil]
  | whileLoop span condition body => exact declaredNames_eq_nil body formed.2.1 formed.2.2
  | doWhile span body condition => exact declaredNames_eq_nil body formed.1.1 formed.1.2
  | _ => rfl

/-- The names that a `for` statement declares before its loop. -/
def ForInitializer.declaredNames : Option ForInitializer → List String
  | some (.declaration declarators) => declarators.map (·.name.name)
  | _ => []

namespace Lowering

open SmallC.Graph

variable {defined : String → Bool} {fails : Fault → Prop} {words : Prop}
  {total rest : Footprint} {graph start next : Graph} {names : List String}
  {ids : List BlockId} {slot : Slot} {loop : Option LoopTargets}

/-! ## Declarations -/

theorem outcome_lowerEffect (ready : start.Ready fails words total) {value : Expr}
    (building : Building defined words total start names ids (value.footprint + rest) graph)
    (sub : words → value.WellFormed) :
    Outcome fails (Building defined words total start names ids rest)
      (lowerEffect defined value graph) :=
  (giving_value ready building sub (giving_lowerExpr value)).bind fun _ _ ⟨built, _⟩ => built

/-- What lowering one variable of a declaration does. -/
theorem outcome_lowerDeclarator (declarator : Declarator)
    (ready : graph.Ready fails declarator.WellFormed declarator.footprint) :
    Outcome fails (Built defined declarator.WellFormed declarator.footprint [declarator.name.name]
      graph) (lowerDeclarator defined declarator graph) := by
  obtain ⟨span, name, initializer⟩ := declarator
  have start := (ready.building defined).reorder
    (.symbol + (Expr.footprintOfOption initializer + 0)) (by rw [Declarator.footprint, add_zero])
  refine (ready.giving_declareVariable start (·.1)).bind fun slot declared ⟨taken, known⟩ => ?_
  cases initializer with
  | none => exact taken
  | some value =>
    refine (giving_value ready taken (·.2) (giving_lowerExpr value)).bind
      fun valueSlot middle ⟨evaluated, valueKnown⟩ => ?_
    have targetKnown := evaluated.hasSlot_of taken (by simp) known
    exact outcome_add (evaluated.hasBlock_current ready.known)
      (evaluated.extended fun formed hold => ⟨.copy targetKnown (valueKnown formed hold), nofun⟩)

/-- What lowering a declaration does. -/
theorem outcome_lowerDeclarators (declarators : List Declarator) {graph : Graph}
    (ready : graph.Ready fails (∀ declarator ∈ declarators, declarator.WellFormed)
      (Declarator.footprintOfAll declarators)) :
    Outcome fails (Built defined (∀ declarator ∈ declarators, declarator.WellFormed)
      (Declarator.footprintOfAll declarators) (declarators.map (·.name.name)) graph)
      (lowerDeclarators defined declarators graph) := by
  induction declarators generalizing graph with
  | nil => exact .refl _ _ _ _
  | cons first others ih =>
    rw [List.forall_mem_cons] at ready ⊢
    have start := (ready.building defined).reorder
      (first.footprint + (Declarator.footprintOfAll others + 0))
      (by rw [Declarator.footprintOfAll, add_zero])
    rw [lowerDeclarators]
    refine (ready.outcome_part start And.left (outcome_lowerDeclarator first)).bind
      fun middle here => ?_
    exact ready.outcome_part here And.right ih

theorem outcome_lowerForInitializer (initializer : Option ForInitializer)
    (ready : graph.Ready fails (ForInitializer.WellFormed initializer)
      (ForInitializer.footprint initializer)) :
    Outcome fails (Built defined (ForInitializer.WellFormed initializer)
      (ForInitializer.footprint initializer) (ForInitializer.declaredNames initializer) graph)
      (lowerForInitializer defined initializer graph) := by
  match initializer with
  | none => exact .refl _ _ _ _
  | some (.declaration declarators) => exact outcome_lowerDeclarators declarators ready
  | some (.expression value) =>
    have start := (ready.building defined).reorder (value.footprint + 0) (add_zero _).symm
    exact outcome_lowerEffect ready start id

/-! ## Loops -/

/-- The blocks that a loop leads to exist. -/
def LoopTargets.Known (loop : Option LoopTargets) (graph : Graph) : Prop :=
  ∀ targets ∈ loop, graph.HasBlock targets.onContinue ∧ graph.HasBlock targets.onBreak

theorem LoopTargets.known_none (graph : Graph) : Known none graph := by
  simp [Known]

theorem LoopTargets.known_some {targets : LoopTargets}
    (onContinue : graph.HasBlock targets.onContinue) (onBreak : graph.HasBlock targets.onBreak) :
    Known (some targets) graph := by
  rintro _ ⟨⟩
  exact ⟨onContinue, onBreak⟩

theorem LoopTargets.Known.mono (known : Known loop graph)
    (keeps : ∀ {id}, graph.HasBlock id → next.HasBlock id) : Known loop next :=
  fun targets member => ⟨keeps (known targets member).1, keeps (known targets member).2⟩

theorem outcome_innermostLoop (scoping : ∀ fault, fault.isScoping = true → fails fault)
    (exit : LoopExit) (loop : Option LoopTargets) :
    Outcome fails (fun targets => loop = some targets) (innermostLoop exit loop) := by
  cases loop with
  | none => exact scoping _ rfl
  | some targets => rfl

theorem forBlocks_test (graph : Graph) (after : Option Expr) :
    (forBlocks graph after).test = graph.newKey 0 := by
  cases after <;> rfl

theorem forBlocks_body (graph : Graph) (after : Option Expr) :
    (forBlocks graph after).body = graph.newKey 1 := by
  cases after <;> rfl

/-- The last block of a `for` statement is the one after its loop. -/
theorem forBlocks_out (graph : Graph) (after : Option Expr) :
    (forBlocks graph after).out = graph.newKey ((forTags after).length - 1) := by
  cases after <;> rfl

theorem three_le_length_forTags (after : Option Expr) : 3 ≤ (forTags after).length := by
  cases after <;> simp [forTags]

theorem plainTag_forTags (after : Option Expr) : ∀ tag ∈ forTags after, plainTag tag = true := by
  cases after <;> simp only [forTags] <;> decide

/-- The blocks of a `for` statement after its test and its body. -/
def laterForBlocks (graph : Graph) (after : Option Expr) : List BlockId :=
  after.toList.map (fun _ => graph.newKey 2) ++ [(forBlocks graph after).out]

theorem map_newKey_forTags (after : Option Expr) (graph : Graph) :
    (List.range (forTags after).length).map graph.newKey =
      (forBlocks graph after).test :: (forBlocks graph after).body :: laterForBlocks graph after := by
  cases after <;> rfl

theorem out_mem_laterForBlocks (graph : Graph) (after : Option Expr) :
    (forBlocks graph after).out ∈ laterForBlocks graph after := by
  simp [laterForBlocks]

/-- The blocks of a `for` statement are blocks of a graph. -/
def HasForBlocks (start : Graph) (after : Option Expr) (graph : Graph) : Prop :=
  ∀ id ∈ (forBlocks start after).test :: (forBlocks start after).body ::
    laterForBlocks start after, graph.HasBlock id

theorem hasForBlocks_createdAll (graph : Graph) (after : Option Expr) :
    HasForBlocks graph after (graph.createdAll (forTags after)) := by
  rw [HasForBlocks, ← map_newKey_forTags]
  exact fun id member => hasBlock_createdAll member

section ForBlocks

variable {after : Option Expr} (known : HasForBlocks start after graph)

include known

theorem HasForBlocks.mono (keeps : ∀ {id}, graph.HasBlock id → next.HasBlock id) :
    HasForBlocks start after next :=
  fun id member => keeps (known id member)

theorem HasForBlocks.test : graph.HasBlock (forBlocks start after).test :=
  known _ List.mem_cons_self

theorem HasForBlocks.body : graph.HasBlock (forBlocks start after).body :=
  known _ (List.mem_cons_of_mem _ List.mem_cons_self)

theorem HasForBlocks.later : ∀ id ∈ laterForBlocks start after, graph.HasBlock id :=
  fun id member => known id (List.mem_cons_of_mem _ (List.mem_cons_of_mem _ member))

theorem HasForBlocks.out : graph.HasBlock (forBlocks start after).out :=
  known.later _ (out_mem_laterForBlocks start after)

/-- The jumps out of the body of a `for` statement lead to its own blocks. -/
theorem HasForBlocks.targets : LoopTargets.Known (some (forBlocks start after).targets) graph := by
  cases after with
  | none => exact LoopTargets.known_some known.test known.out
  | some value => exact LoopTargets.known_some (known.later _ List.mem_cons_self) known.out

end ForBlocks

theorem forBlocks_targets (graph : Graph) (after : Option Expr) :
    (forBlocks graph after).targets =
      ⟨(forBlocks graph after).targets.onContinue, (forBlocks graph after).out⟩ := by
  cases after <;> rfl

/-- What a `for` statement takes, in order. -/
theorem footprint_forLoop (span : Span) (initializer : Option ForInitializer)
    (test after : Option Expr) (body : Stmt) :
    (Stmt.forLoop span initializer test after body).footprint =
      ForInitializer.footprint initializer + (.ofBlocks (forTags after).length +
        (Expr.footprintOfOption test + (body.footprint + (Expr.footprintOfOption after + 0)))) := by
  have blocks_eq : Footprint.ofBlocks 3 + ForInitializer.footprintAfter after =
      .ofBlocks (forTags after).length + Expr.footprintOfOption after := by
    cases after with
    | none => rfl
    | some value =>
      rw [ForInitializer.footprintAfter, Expr.footprintOfOption, ← add_assoc]
      rfl
  calc (Stmt.forLoop span initializer test after body).footprint
      = ForInitializer.footprint initializer + Expr.footprintOfOption test + body.footprint +
          (.ofBlocks 3 + ForInitializer.footprintAfter after) := by
        rw [Stmt.footprint]
        abel
    _ = _ := by
        rw [blocks_eq]
        abel

section For

variable (ready : start.Ready fails words total)

include ready

/-- The test of a `for` statement and the start of its body. -/
theorem outcome_lowerForTest {blocks : ForBlocks} {test : Option Expr}
    (building : Building defined words total start names (blocks.body :: ids)
      (Expr.footprintOfOption test + rest) graph)
    (sub : words → Expr.OptionWellFormed test) (outKnown : graph.HasBlock blocks.out) :
    Outcome fails (Building defined words total start names ids rest)
      (lowerForTest defined blocks test graph >>= enterBlock blocks.body) := by
  cases test with
  | none =>
    have begun := building.reorder rest (by rw [Expr.footprintOfOption, zero_add])
    exact ready.outcome_jump begun (begun.known _ List.mem_cons_self)
  | some value =>
    simp only [lowerForTest, bind_assoc]
    refine (giving_value ready building sub (giving_lowerExpr value)).bind ?_
    rintro slot tested ⟨evaluated, known⟩
    exact ready.outcome_branch evaluated known (evaluated.known _ List.mem_cons_self)
      (evaluated.hasBlock_of building (by simp) outKnown)

/-- What a `for` statement does after its body. -/
theorem outcome_lowerForAfter {origin : Graph} {after : Option Expr}
    (building : Building defined words total start names (laterForBlocks origin after)
      (Expr.footprintOfOption after + rest) graph)
    (sub : words → Expr.OptionWellFormed after) :
    Outcome fails
      (Building defined words total start names [(forBlocks origin after).out] rest)
      (lowerForAfter defined (forBlocks origin after) graph) := by
  cases after with
  | none => exact building.reorder rest (by rw [Expr.footprintOfOption, zero_add])
  | some value =>
    exact ready.outcome_jump_bind building (building.known _ List.mem_cons_self)
      fun entered begun => outcome_lowerEffect ready begun sub

end For

/-! ## Statements -/

/-- What lowering a statement does, wherever it is lowered. -/
def Builds (defined : String → Bool) (fails : Fault → Prop) (statement : Stmt) : Prop :=
  ∀ ⦃graph : Graph⦄ ⦃loop : Option LoopTargets⦄,
    graph.Ready fails (statement.WellFormed ∧ LoopTargets.Known loop graph) statement.footprint →
      Outcome fails (Built defined (statement.WellFormed ∧ LoopTargets.Known loop graph)
        statement.footprint statement.declaredNames graph) (lowerStmt defined loop statement graph)

section Control

variable {span : Span} {condition : Expr} {positive negative body : Stmt}

theorem builds_ifThen (positiveBuilds : Builds defined fails positive) :
    Builds defined fails (.ifThen span condition positive) := by
  intro graph loop ready
  have start := ready.building defined
  have begun := start.reorder (condition.footprint + (.ofBlocks 2 + (positive.footprint + 0)))
    (by rw [Stmt.footprint]; abel)
  rw [lowerStmt]
  refine (giving_value ready begun (·.1.1) (giving_lowerExpr condition)).bind ?_
  rintro test tested ⟨evaluated, testKnown⟩
  have created : Building _ _ _ _ _ [tested.newKey 0, tested.newKey 1] _ _ :=
    evaluated.created ["if_true", "if_out"] ready.known rfl (by decide)
  simp only [createBlock_eq, newKey_created]
  refine ready.outcome_branch_bind created ?_ (created.known _ (by simp))
    (created.known _ (by simp)) fun inside split => ?_
  · exact fun formed hold => created.hasSlot_of evaluated (by simp) (testKnown formed hold)
  refine (ready.outcome_part split ?_ (positiveBuilds ·)).bind fun done arm => ?_
  · exact fun hold => ⟨hold.1.2.1, hold.2.mono split.addition.hasBlock⟩
  exact ready.outcome_jump arm (arm.known _ (by simp))

theorem builds_ifElse (positiveBuilds : Builds defined fails positive)
    (negativeBuilds : Builds defined fails negative) :
    Builds defined fails (.ifElse span condition positive negative) := by
  intro graph loop ready
  have start := ready.building defined
  have begun := start.reorder (condition.footprint +
    (.ofBlocks 3 + (positive.footprint + (negative.footprint + 0))))
    (by rw [Stmt.footprint]; abel)
  rw [lowerStmt]
  refine (giving_value ready begun (·.1.1) (giving_lowerExpr condition)).bind ?_
  rintro test tested ⟨evaluated, testKnown⟩
  have created : Building _ _ _ _ _ [tested.newKey 0, tested.newKey 1, tested.newKey 2] _ _ :=
    evaluated.created ["if_true", "if_false", "if_out"] ready.known rfl (by decide)
  simp only [createBlock_eq, newKey_created]
  refine ready.outcome_branch_bind created ?_ (created.known _ (by simp))
    (created.known _ (by simp)) fun inside split => ?_
  · exact fun formed hold => created.hasSlot_of evaluated (by simp) (testKnown formed hold)
  refine (ready.outcome_part split ?_ (positiveBuilds ·)).bind fun done arm => ?_
  · exact fun hold => ⟨hold.1.2.1.1, hold.2.mono split.addition.hasBlock⟩
  refine ready.outcome_jump_bind arm (arm.known _ (by simp)) fun other second => ?_
  refine (ready.outcome_part second ?_ (negativeBuilds ·)).bind fun otherwise otherArm => ?_
  · exact fun hold => ⟨hold.1.2.2.1, hold.2.mono second.addition.hasBlock⟩
  exact ready.outcome_jump otherArm (otherArm.known _ (by simp))

section

variable (bodyBuilds : Builds defined fails body)
include bodyBuilds

theorem builds_whileLoop : Builds defined fails (.whileLoop span condition body) := by
  intro graph loop ready
  have start := ready.building defined
  have begun := start.reorder (.ofBlocks 3 + (condition.footprint + (body.footprint + 0)))
    (by rw [Stmt.footprint]; abel)
  have created : Building _ _ _ _ _ [graph.newKey 0, graph.newKey 1, graph.newKey 2] _ _ :=
    begun.created ["while_test", "while_body", "while_out"] ready.known rfl (by decide)
  have testKnown := created.known (graph.newKey 0) (by simp)
  rw [lowerStmt]
  simp only [createBlock_eq, newKey_created]
  refine ready.outcome_jump_bind created testKnown fun testing first => ?_
  refine (giving_value ready first (·.1.1) (giving_lowerExpr condition)).bind ?_
  rintro test tested ⟨evaluated, slotKnown⟩
  refine ready.outcome_branch_bind evaluated slotKnown (evaluated.known _ (by simp))
    (evaluated.known _ (by simp)) fun inside split => ?_
  refine (ready.outcome_part split ?_ (bodyBuilds ·)).bind fun done arm => ?_
  · exact fun hold => ⟨hold.1.2.1, LoopTargets.known_some
      (split.hasBlock_of created (by simp) testKnown) (split.known _ (by simp))⟩
  exact ready.outcome_jump arm (arm.hasBlock_of created (by simp) testKnown)

theorem builds_doWhile : Builds defined fails (.doWhile span body condition) := by
  intro graph loop ready
  have start := ready.building defined
  have begun := start.reorder (.ofBlocks 3 + (body.footprint + (condition.footprint + 0)))
    (by rw [Stmt.footprint]; abel)
  have created : Building _ _ _ _ _ [graph.newKey 0, graph.newKey 1, graph.newKey 2] _ _ :=
    begun.created ["do_body", "do_test", "do_out"] ready.known rfl (by decide)
  have bodyKnown := created.known (graph.newKey 0) (by simp)
  rw [lowerStmt]
  simp only [createBlock_eq, newKey_created]
  refine ready.outcome_jump_bind created bodyKnown fun inside first => ?_
  refine (ready.outcome_part first ?_ (bodyBuilds ·)).bind fun done arm => ?_
  · exact fun hold => ⟨hold.1.1.1, LoopTargets.known_some (first.known _ (by simp))
      (first.known _ (by simp))⟩
  refine ready.outcome_jump_bind arm (arm.known _ (by simp)) fun testing second => ?_
  refine (giving_value ready second (·.1.2) (giving_lowerExpr condition)).bind ?_
  rintro test tested ⟨evaluated, slotKnown⟩
  exact ready.outcome_branch evaluated slotKnown
    (evaluated.hasBlock_of created (by simp) bodyKnown) (evaluated.known _ (by simp))

variable {initializer : Option ForInitializer}

theorem builds_forLoop {test after : Option Expr} :
    Builds defined fails (.forLoop span initializer test after body) := by
  intro graph loop ready
  have opened := ready.opened
  have begun := (opened.building defined).reorder _
    (footprint_forLoop span initializer test after body)
  rw [lowerStmt]
  refine (opened.outcome_part begun (·.1.1) (outcome_lowerForInitializer initializer)).bind
    fun started first => ?_
  rw [createForBlocks_eq]
  have created := first.created (forTags after) opened.known (map_newKey_forTags after started)
    (plainTag_forTags after)
  have testKnown := created.known _ List.mem_cons_self
  refine opened.outcome_jump_bind created testKnown fun testing entered => ?_
  rw [← bind_assoc]
  refine (outcome_lowerForTest opened entered (·.1.2.1) ?_).bind fun tested decided => ?_
  · exact entered.known _ (by simp [out_mem_laterForBlocks])
  refine (opened.outcome_part decided ?_ (bodyBuilds ·)).bind fun done arm => ?_
  · exact fun hold => ⟨hold.1.2.2.2.1, HasForBlocks.targets fun id member =>
      decided.hasBlock_of created (by simp) (created.known id member)⟩
  refine (outcome_lowerForAfter opened arm (·.1.2.2.1)).bind fun ended last => ?_
  refine opened.outcome_jump_bind last (last.hasBlock_of created (by simp) testKnown)
    fun out built => ?_
  exact built.outcome_leaveScope

end

end Control

mutual

/-- What lowering a statement does. -/
theorem outcome_lowerStmt (statement : Stmt) : Builds defined fails statement := by
  intro graph loop ready
  have start := ready.building defined
  cases statement with
  | declaration span declarators =>
    have begun := start.reorder (Declarator.footprintOfAll declarators + 0)
      (by rw [Stmt.footprint, add_zero])
    rw [lowerStmt]
    exact ready.outcome_part begun And.left (outcome_lowerDeclarators declarators)
  | expression span value =>
    have begun := start.reorder (value.footprint + 0) (by rw [Stmt.footprint, add_zero])
    rw [lowerStmt]
    exact outcome_lowerEffect ready begun And.left
  | block span statements =>
    have opened : (graph.inScopes graph.scopes.enter).Ready fails
        (Stmt.AllWellFormed statements ∧ LoopTargets.Known loop (graph.inScopes graph.scopes.enter))
        (Stmt.footprintOfAll statements) := ready.opened
    rw [lowerStmt]
    refine (outcome_lowerStmts statements opened).bind fun inside built => ?_
    exact built.outcome_leaveScope
  | ifThen span condition positive =>
    exact builds_ifThen (outcome_lowerStmt positive) ready
  | ifElse span condition positive negative =>
    exact builds_ifElse (outcome_lowerStmt positive) (outcome_lowerStmt negative) ready
  | whileLoop span condition body =>
    exact builds_whileLoop (outcome_lowerStmt body) ready
  | doWhile span body condition =>
    exact builds_doWhile (outcome_lowerStmt body) ready
  | forLoop span initializer test after body =>
    exact builds_forLoop (outcome_lowerStmt body) ready
  | breakLoop span =>
    rw [lowerStmt]
    refine (outcome_innermostLoop ready.scoping _ loop).bind ?_
    rintro targets rfl
    exact outcome_add ready.known
      (start.extended fun _ hold => ⟨.jump (hold.2 targets rfl).2, nofun⟩)
  | continueLoop span =>
    rw [lowerStmt]
    refine (outcome_innermostLoop ready.scoping _ loop).bind ?_
    rintro targets rfl
    exact outcome_add ready.known
      (start.extended fun _ hold => ⟨.jump (hold.2 targets rfl).1, nofun⟩)
  | returnValue span value =>
    cases value with
    | none =>
      rw [lowerStmt]
      exact outcome_add ready.known (start.extended fun _ _ => ⟨.ret nofun, nofun⟩)
    | some value =>
      have begun := start.reorder (value.footprint + 0)
        (by rw [Stmt.footprint, Expr.footprintOfOption, add_zero])
      rw [lowerStmt]
      refine (giving_value ready begun (·.1) (giving_lowerExpr value)).bind
        fun slot middle ⟨evaluated, known⟩ => ?_
      refine outcome_add (evaluated.hasBlock_current ready.known)
        (evaluated.extended fun formed hold => ⟨.ret ?_, nofun⟩)
      rintro _ ⟨⟩
      exact known formed hold
  | empty span => exact start

/-- What lowering statements does. -/
theorem outcome_lowerStmts (statements : List Stmt) {graph : Graph} {loop : Option LoopTargets}
    (ready : graph.Ready fails (Stmt.AllWellFormed statements ∧ LoopTargets.Known loop graph)
      (Stmt.footprintOfAll statements)) :
    Outcome fails (Built defined (Stmt.AllWellFormed statements ∧ LoopTargets.Known loop graph)
      (Stmt.footprintOfAll statements) (statements.flatMap Stmt.declaredNames) graph)
      (lowerStmts defined loop statements graph) := by
  have start := ready.building defined
  cases statements with
  | nil => exact start
  | cons first others =>
    have begun := start.reorder (first.footprint + (Stmt.footprintOfAll others + 0))
      (by rw [Stmt.footprintOfAll, add_zero])
    rw [lowerStmts]
    refine (ready.outcome_part begun (fun hold => ⟨hold.1.1, hold.2⟩)
      (outcome_lowerStmt first ·)).bind fun middle here => ?_
    exact ready.outcome_part here
      (fun hold => ⟨hold.1.2, hold.2.mono here.addition.hasBlock⟩) (outcome_lowerStmts others)

end

/-! ## Statements that were lowered -/

theorem built_lowerDeclarator {declarator : Declarator} (known : graph.HasBlock graph.current)
    (lowered : lowerDeclarator defined declarator graph = .ok next) :
    Built defined declarator.WellFormed declarator.footprint [declarator.name.name] graph next :=
  (outcome_lowerDeclarator declarator (ready_of_hasBlock known _ _)).of_eq_ok lowered

theorem built_lowerDeclarators (declarators : List Declarator) (known : graph.HasBlock graph.current)
    (lowered : lowerDeclarators defined declarators graph = .ok next) :
    Built defined (∀ declarator ∈ declarators, declarator.WellFormed)
      (Declarator.footprintOfAll declarators) (declarators.map (·.name.name)) graph next :=
  (outcome_lowerDeclarators declarators (ready_of_hasBlock known _ _)).of_eq_ok lowered

theorem built_lowerStmt (statement : Stmt) (known : graph.HasBlock graph.current)
    (lowered : lowerStmt defined loop statement graph = .ok next) :
    Built defined (statement.WellFormed ∧ LoopTargets.Known loop graph) statement.footprint
      statement.declaredNames graph next :=
  (outcome_lowerStmt statement (ready_of_hasBlock known _ _)).of_eq_ok lowered

theorem addition_lowerStmt (statement : Stmt) (known : graph.HasBlock graph.current)
    (lowered : lowerStmt defined loop statement graph = .ok next) :
    Addition statement.declaredNames graph next :=
  (built_lowerStmt statement known lowered).addition

theorem built_lowerStmts (statements : List Stmt) (known : graph.HasBlock graph.current)
    (lowered : lowerStmts defined loop statements graph = .ok next) :
    Built defined (Stmt.AllWellFormed statements ∧ LoopTargets.Known loop graph)
      (Stmt.footprintOfAll statements) (statements.flatMap Stmt.declaredNames) graph next :=
  (outcome_lowerStmts statements (ready_of_hasBlock known _ _)).of_eq_ok lowered

/-- What lowering statements gives in a well-formed graph: only the innermost scope may have more
variables. -/
structure Executed (graph next : Graph) : Prop where
  steps : Steps graph next
  enclosing_eq : next.scopes.named.enclosing = graph.scopes.named.enclosing

/-- What lowering a statement gives: only a declaration brings variables into scope. -/
structure Completed (statement : Stmt) (graph next : Graph) : Prop extends Executed graph next where
  named_eq : statement.isDeclaration = false → next.scopes.named = graph.scopes.named

theorem executed_of_built {footprint : Footprint}
    (built : Built defined words footprint names graph next) (formed : graph.WellFormed)
    (hold : words) : Executed graph next :=
  ⟨built.steps formed hold, congrArg (List.map Scope.named) built.addition.scopes.enclosing_eq⟩

theorem executed_lowerDeclarator {declarator : Declarator} (formed : graph.WellFormed)
    (tree : declarator.WellFormed)
    (lowered : lowerDeclarator defined declarator graph = .ok next) : Executed graph next :=
  executed_of_built (built_lowerDeclarator formed.hasBlock_current lowered) formed tree

theorem executed_lowerDeclarators (declarators : List Declarator) (formed : graph.WellFormed)
    (tree : ∀ declarator ∈ declarators, declarator.WellFormed)
    (lowered : lowerDeclarators defined declarators graph = .ok next) : Executed graph next :=
  executed_of_built (built_lowerDeclarators declarators formed.hasBlock_current lowered) formed tree

theorem executed_lowerForInitializer (formed : graph.WellFormed)
    (tree : ForInitializer.WellFormed initializer)
    (lowered : lowerForInitializer defined initializer graph = .ok next) : Executed graph next :=
  executed_of_built ((outcome_lowerForInitializer initializer
    (ready_of_hasBlock formed.hasBlock_current _ _)).of_eq_ok lowered) formed tree

theorem completed_lowerStmt (statement : Stmt) (formed : graph.WellFormed)
    (tree : statement.WellFormed) (targets : LoopTargets.Known loop graph)
    (lowered : lowerStmt defined loop statement graph = .ok next) :
    Completed statement graph next := by
  have built := built_lowerStmt statement formed.hasBlock_current lowered
  refine ⟨executed_of_built built formed ⟨tree, targets⟩, fun other => ?_⟩
  rw [statement.declaredNames_eq_nil tree other] at built
  exact built.addition.scopes.named_eq

theorem executed_lowerStmts (statements : List Stmt) (formed : graph.WellFormed)
    (tree : Stmt.AllWellFormed statements) (targets : LoopTargets.Known loop graph)
    (lowered : lowerStmts defined loop statements graph = .ok next) : Executed graph next :=
  executed_of_built (built_lowerStmts statements formed.hasBlock_current lowered) formed
    ⟨tree, targets⟩

end Lowering

end SmallC
